import TryGo.Build.Config
import TryGo.Build.FileTree
import TryGo.Log

/-! Finding the sources of a build. A directory is searched from the top: first its own
files in the order of their names, then its subdirectories in the order of theirs.
Directories named like the build directory, and the build directory itself, are skipped. -/
namespace TryGo.Build

structure Task where
  source : Path
  target : Path
deriving DecidableEq

def sortByName {α : Type} (items : List (String × α)) : List (String × α) :=
  items.mergeSort fun a b => decide (a.1 ≤ b.1)

def fileNames (entries : List (String × FileTree)) : List String :=
  ((entries.filter fun entry => !entry.2.isDir).map Prod.fst).mergeSort fun a b => decide (a ≤ b)

mutual

/-- The files below a directory that is at `here`, as locations. `skip` tells which
subdirectories are left out. -/
def filesBelow (skip : Location → Bool) (here : Location) : FileTree → List Location
  | .file _ => []
  | .dir entries =>
      (fileNames entries).map (fun name => here ++ [name])
        ++ (sortByName (filesBelowEach skip here entries)).flatMap Prod.snd

/-- The files below each subdirectory, with its name. -/
def filesBelowEach (skip : Location → Bool) (here : Location) :
    List (String × FileTree) → List (String × List Location)
  | [] => []
  | (name, tree) :: rest =>
      let others := filesBelowEach skip here rest
      if tree.isDir && !skip (here ++ [name]) then
        (name, filesBelow skip (here ++ [name]) tree) :: others
      else others

end

/-- Whether a directory is left out of the search. -/
def isSkipped (config : Config) (buildDir : Path) (location : Location) : Bool :=
  location.getLast? = some config.buildDirName || Path.ofLocation location = buildDir

def hasSuffix (suffix name : String) : Bool := suffix.toList.isSuffixOf name.toList

/-- The task of a source at a location below the root. A name that is left as a single point
names the directory it stands in. -/
def taskOf (config : Config) (buildDir : Path) (root location : Location) :
    Except SuffixError Task := do
  let relative := location.drop root.length
  let name ← withSuffix config.targetSuffix (relative.getLast?.getD "")
  let names := relative.dropLast ++ (if name == "." then [] else [name])
  return ⟨Path.ofLocation location, buildDir.join ⟨.relative, names⟩⟩

/-- The sources below a root. A root that is no directory has none. -/
def sourcesBelow (disk : Disk) (config : Config) (root : Location) : List Location :=
  let buildDir := config.resolvedBuildDir disk.here
  let files :=
    match disk.tree.get? root with
    | none => []
    | some tree => filesBelow (isSkipped config buildDir) root tree
  files.filter fun location => hasSuffix config.sourceSuffix (location.getLast?.getD "")

/-- The tasks for all sources below a root. -/
def collect (disk : Disk) (config : Config) (root : Path) : Except SuffixError (List Task) :=
  let root := root.locate disk.here
  (sourcesBelow disk config root).mapM (taskOf config (config.resolvedBuildDir disk.here) root)

/-- The event that tells how many sources were found. -/
def foundEvent (disk : Disk) (root : Path) (tasks : List Task) : Event :=
  .foundSources tasks.length (root.resolve disk.here).text

end TryGo.Build
