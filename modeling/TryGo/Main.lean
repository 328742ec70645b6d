import TryGo.Build.Command

/-! The program. It shows the commands a copy of the files that its arguments can lead to,
prints what they answer, and carries out on the real files what changed in the copy. -/
namespace TryGo.Main

open TryGo.Build

/-- The names that a real path consists of. -/
def locationOf (text : String) : Location := (Path.ofString text).parts

def textOf (location : Location) : String := (Path.ofLocation location).text

/-- Copies a real file or directory with everything in it. -/
partial def load (location : Location) : IO (Option FileTree) := do
  try
    let path ← IO.FS.realPath (textOf location)
    if ← path.isDir then
      let mut entries := []
      for entry in ← path.readDir do
        if let some tree ← load (location ++ [entry.fileName]) then
          entries := (entry.fileName, tree) :: entries
      return some (.dir entries)
    else
      return some (.file (← IO.FS.readBinFile path).toList)
  catch _ => return none

/-- Whether a real directory stands at a location. -/
def isRealDir (location : Location) : IO Bool := do
  try (← IO.FS.realPath (textOf location)).isDir
  catch _ => return false

/-- Adds a location to a copy: the directories above it by their names only, and what stands
there with everything in it. -/
def reveal (tree : FileTree) (location : Location) : IO FileTree := do
  let mut tree := tree
  for depth in List.range location.length do
    let above := location.take depth
    if (tree.get? above).isNone && (← isRealDir above) then tree := tree.put above (.dir [])
  match ← load location with
  | none => return tree
  | some found => return tree.put location found

/-- The texts in an argument that may be paths: the whole, and in an option what follows its
equals sign or its short name. -/
def pathTexts (argument : String) : List String :=
  match argument.toList with
  | '-' :: '-' :: chars => [argument, String.ofList ((chars.dropWhile (· != '=')).drop 1)]
  | '-' :: _ :: chars => [argument, String.ofList chars]
  | _ => [argument]

/-- The locations that a command may look at: the working directory and what its arguments
and the environment name. -/
def reachable (here : Location) (env : Environment) (arguments : List String) : List Location :=
  let texts := arguments.flatMap pathTexts ++ env.buildDir.toList
  here :: texts.map fun text => (Path.ofString text).locate here

def discard (text : String) : FileTree → IO Unit
  | .dir _ => IO.FS.removeDirAll text
  | .file _ => IO.FS.removeFile text

/-- Makes a real location hold a tree, given what it held. -/
partial def save (location : Location) (old : Option FileTree) (new : FileTree) : IO Unit := do
  let text := textOf location
  match old, new with
  | some (.file before), .file after =>
      if before != after then IO.FS.writeBinFile text (ByteArray.mk after.toArray)
  | _, .file after => IO.FS.writeBinFile text (ByteArray.mk after.toArray)
  | old, .dir entries =>
      let before := match old with
        | some (.dir before) => before
        | _ => []
      if !((old.map FileTree.isDir).getD false) then IO.FS.createDir text
      for (name, tree) in before do
        if (entries.lookup name).isNone then discard (textOf (location ++ [name])) tree
      for (name, tree) in entries do
        save (location ++ [name]) (before.lookup name) tree

def usage : String :=
  "Usage: godsl [-v] generate [ROOT] [-o DIR] [-j N]\n" ++
  "       godsl [-v] transpile FILE [-o FILE] [--tokens] [--ast]\n" ++
  "       godsl version\n"

/-- Prints what a command answers, and gives its exit code. -/
def answer : Ending → IO UInt32
  | .usage => do
      IO.eprint usage
      return 2
  | .help => do
      IO.print usage
      return 0
  | .done code out err => do
      IO.print out
      IO.eprint err
      return UInt32.ofNat code

end TryGo.Main

def main (arguments : List String) : IO UInt32 := do
  let here := TryGo.Main.locationOf (← IO.currentDir).toString
  let buildDir ← IO.getEnv "GODSL_BUILD_DIR"
  let jobs ← IO.getEnv "GODSL_JOBS"
  let env : TryGo.Build.Environment := ⟨buildDir, jobs⟩
  let locations := TryGo.Main.reachable here env arguments
  let before ← locations.foldlM TryGo.Main.reveal (.dir [])
  let (ending, disk) := TryGo.Build.run ⟨before, here⟩ env arguments
  TryGo.Main.save [] (some before) disk.tree
  TryGo.Main.answer ending
