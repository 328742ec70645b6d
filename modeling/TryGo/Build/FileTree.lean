import TryGo.Build.Path

/-! The files that a build works on: a tree of directories with the bytes of each file, and
the directory that relative paths start from. There are no links and no permissions. -/
namespace TryGo.Build

/-- A file or a directory. The names in a directory are meant to differ; the first entry of
a name is the one that counts. -/
inductive FileTree where
  | file (bytes : List UInt8)
  | dir (entries : List (String × FileTree))
deriving Inhabited

namespace FileTree

def isDir : FileTree → Bool
  | .file _ => false
  | .dir _ => true

def get? : FileTree → Location → Option FileTree
  | tree, [] => some tree
  | .file _, _ :: _ => none
  | .dir entries, name :: rest =>
      match entries.lookup name with
      | none => none
      | some tree => tree.get? rest

/-- Gives an entry of a directory a new content, or adds it. -/
def setEntry (name : String) (tree : FileTree) : List (String × FileTree) → List (String × FileTree)
  | [] => [(name, tree)]
  | entry :: rest =>
      if entry.1 == name then (name, tree) :: rest else entry :: setEntry name tree rest

/-- Puts something at a location whose parent is a directory. Elsewhere nothing changes. -/
def put (tree : FileTree) (location : Location) (new : FileTree) : FileTree :=
  match tree, location with
  | _, [] => new
  | .file bytes, _ :: _ => .file bytes
  | .dir entries, [name] => .dir (setEntry name new entries)
  | .dir entries, name :: next :: rest =>
      match entries.lookup name with
      | none => .dir entries
      | some below => .dir (setEntry name (below.put (next :: rest) new) entries)

/-- Removes what stands at a location below the top. -/
def erase : FileTree → Location → FileTree
  | tree, [] => tree
  | .file bytes, _ :: _ => .file bytes
  | .dir entries, [name] => .dir (entries.filter fun entry => entry.1 != name)
  | .dir entries, name :: next :: rest =>
      match entries.lookup name with
      | none => .dir entries
      | some tree => .dir (setEntry name (tree.erase (next :: rest)) entries)

mutual

/-- Everything below a directory, as paths from it with what is there: nothing for a
directory, whose path ends in a separator, and the bytes of a file. -/
def contents (above : String) : FileTree → List (String × Option (List UInt8))
  | .file _ => []
  | .dir entries => contentsOf above entries

def contentsOf (above : String) : List (String × FileTree) → List (String × Option (List UInt8))
  | [] => []
  | (name, tree) :: rest =>
      (match tree with
        | .file bytes => [(above ++ name, some bytes)]
        | .dir _ => [(above ++ name ++ "/", none)])
      ++ tree.contents (above ++ name ++ "/") ++ contentsOf above rest

end

/-- The contents of a directory in the order of their paths. -/
def listing (tree : FileTree) : List (String × Option (List UInt8)) :=
  (tree.contents "").mergeSort fun a b => decide (a.1 ≤ b.1)

end FileTree

/-- Why the file system refuses something. -/
inductive Errno where
  | noEntry | exists | notDir | isDir
deriving DecidableEq

namespace Errno

def code : Errno → Nat
  | .noEntry => 2
  | .exists => 17
  | .notDir => 20
  | .isDir => 21

def reason : Errno → String
  | .noEntry => "No such file or directory"
  | .exists => "File exists"
  | .notDir => "Not a directory"
  | .isDir => "Is a directory"

/-- The class under which a refusal is shown. -/
def className : Errno → String
  | .noEntry => "FileNotFoundError"
  | .exists => "FileExistsError"
  | .notDir => "NotADirectoryError"
  | .isDir => "IsADirectoryError"

end Errno

/-- A refusal with the path that was asked for, as it is shown. -/
structure FileError where
  errno : Errno
  shown : String
deriving DecidableEq

def FileError.message (error : FileError) : String :=
  "[Errno " ++ toString error.errno.code ++ "] " ++ error.errno.reason ++ ": " ++ error.shown

def FileError.ofPath (errno : Errno) (path : Path) : FileError := ⟨errno, Text.quoted path.text⟩

/-- A file system with a working directory. -/
structure Disk where
  tree : FileTree
  here : Location

namespace Disk

/-- Follows names from a location. Every step needs a directory to start from; the step to
the parent and the step that stays do as well. -/
def follow (disk : Disk) (start : Location) : List String → Except Errno Location
  | [] => .ok start
  | name :: rest =>
      match disk.tree.get? start with
      | none => .error .noEntry
      | some (.file _) => .error .notDir
      | some (.dir entries) =>
          if name == "" || name == "." then disk.follow start rest
          else if name == ".." then disk.follow start.dropLast rest
          else if (entries.lookup name).isSome then disk.follow (start ++ [name]) rest
          else .error .noEntry

def startOf (disk : Disk) (path : Path) : Location :=
  if path.anchor == .relative then disk.here else []

/-- What a path leads to. -/
def entry (disk : Disk) (path : Path) : Except Errno FileTree := do
  let location ← disk.follow (disk.startOf path) path.parts
  match disk.tree.get? location with
  | none => throw .noEntry
  | some tree => return tree

def isDir (disk : Disk) (path : Path) : Bool :=
  match disk.entry path with
  | .ok tree => tree.isDir
  | .error _ => false

/-- What an argument leads to, taken as it is written: a separator at the end asks for a
directory. -/
def entryOfText (disk : Disk) (text : String) : Option FileTree :=
  if text == "" then none
  else
    let start := if text.toList.head? = some '/' then [] else disk.here
    match disk.follow start (slashParts text) with
    | .error _ => none
    | .ok location => disk.tree.get? location

def read (disk : Disk) (path : Path) : Except FileError (List UInt8) :=
  match disk.entry path with
  | .error errno => .error (.ofPath errno path)
  | .ok (.dir _) => .error (.ofPath .isDir path)
  | .ok (.file bytes) => .ok bytes

/-- The place that the last name of a path stands for, whether or not anything is there. A
path that ends in a step to the parent, or has no names, leads to a directory. -/
def place (disk : Disk) (path : Path) : Except Errno (Option Location) := do
  match path.parts.getLast? with
  | none => return none
  | some name =>
      let above ← disk.follow (disk.startOf path) path.parts.dropLast
      match disk.tree.get? above with
      | none => throw .noEntry
      | some (.file _) => throw .notDir
      | some (.dir _) => return if name == ".." then none else some (above ++ [name])

/-- Writes a file, whose directory has to be there. -/
def write (disk : Disk) (path : Path) (bytes : List UInt8) : Except FileError Disk :=
  match disk.place path with
  | .error errno => .error (.ofPath errno path)
  | .ok none => .error (.ofPath .isDir path)
  | .ok (some location) =>
      match disk.tree.get? location with
      | some (.dir _) => .error (.ofPath .isDir path)
      | _ => .ok { disk with tree := disk.tree.put location (.file bytes) }

def makeDir (disk : Disk) (path : Path) : Except Errno Disk := do
  match ← disk.place path with
  | none => throw .exists
  | some location =>
      if (disk.tree.get? location).isSome then throw .exists
      else return { disk with tree := disk.tree.put location (.dir []) }

/-- Removes whatever a location holds. -/
def remove (disk : Disk) (location : Location) : Disk :=
  { disk with tree := disk.tree.erase location }

/-- The contents of the working directory. -/
def listing (disk : Disk) : List (String × Option (List UInt8)) :=
  match disk.tree.get? disk.here with
  | some tree => tree.listing
  | none => []

end Disk

/-- A step that changes files. What it did before a refusal stays done. -/
abbrev DiskM := EStateM FileError Disk

/-- Writes a file, whose directory has to be there. -/
def writeFile (path : Path) (bytes : List UInt8) : DiskM Unit := fun disk =>
  match disk.write path bytes with
  | .ok disk => .ok () disk
  | .error error => .error error disk

/-- Makes one directory, unless it is there. -/
def ensureDir (path : Path) : DiskM Unit := fun disk =>
  match disk.makeDir path with
  | .ok disk => .ok () disk
  | .error errno =>
      if errno != .noEntry && disk.isDir path then .ok () disk
      else .error (.ofPath errno path) disk

/-- Makes a directory and those above it, given the names of its path in reverse. Those
above are made only if there is no other way. -/
def ensureDirsFrom (anchor : Anchor) : List String → DiskM Unit
  | [] => ensureDir ⟨anchor, []⟩
  | name :: above => do
      let path : Path := ⟨anchor, (name :: above).reverse⟩
      match (← get).makeDir path with
      | .error .noEntry =>
          ensureDirsFrom anchor above
          ensureDir path
      | _ => ensureDir path

/-- Makes a directory and those above it. What is there already is left alone. -/
def ensureDirs (path : Path) : DiskM Unit := ensureDirsFrom path.anchor path.parts.reverse

/-- Writes a file, making the directories above it. -/
def writeBelow (path : Path) (bytes : List UInt8) : DiskM Unit := do
  ensureDirs path.parent
  writeFile path bytes

end TryGo.Build
