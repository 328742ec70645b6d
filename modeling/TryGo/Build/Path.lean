import TryGo.Text.Join
import TryGo.Text.Quoted

/-! Paths as texts name them. Repeated separators and dots are dropped when a path is read,
but a step to the parent is kept: what it leads to depends on the file system. -/
namespace TryGo.Build

/-- Names from the top of the file system down to one entry. -/
abbrev Location := List String

/-- Where a path starts. Exactly two leading separators are kept apart from one. -/
inductive Anchor where
  | relative | root | doubleRoot
deriving DecidableEq

def Anchor.text : Anchor → String
  | .relative => ""
  | .root => "/"
  | .doubleRoot => "//"

/-- A path: its start and the names below it. -/
structure Path where
  anchor : Anchor
  parts : List String
deriving DecidableEq

/-- Cuts a text at every separator, given the characters of the current part, newest
first. -/
def cutAtSlashes (part : List Char) : List Char → List String
  | [] => [String.ofList part.reverse]
  | c :: rest =>
      if c == '/' then String.ofList part.reverse :: cutAtSlashes [] rest
      else cutAtSlashes (c :: part) rest

/-- The names that a text holds between its separators, empty ones included. -/
def slashParts (text : String) : List String := cutAtSlashes [] text.toList

namespace Path

def ofString (text : String) : Path :=
  let anchor : Anchor :=
    match text.toList with
    | '/' :: '/' :: '/' :: _ => .root
    | '/' :: '/' :: _ => .doubleRoot
    | '/' :: _ => .root
    | _ => .relative
  ⟨anchor, (slashParts text).filter fun part => part != "" && part != "."⟩

def ofLocation (location : Location) : Path := ⟨.root, location⟩

/-- A path as a text. The path without names is a dot. -/
def text (path : Path) : String :=
  if path.anchor == .relative && path.parts.isEmpty then "."
  else path.anchor.text ++ Text.joinWith "/" path.parts

/-- A path taken from another one, which an absolute path ignores. -/
def join (base path : Path) : Path :=
  if path.anchor == .relative then ⟨base.anchor, base.parts ++ path.parts⟩ else path

def parent (path : Path) : Path := { path with parts := path.parts.dropLast }

def name (path : Path) : String := path.parts.getLast?.getD ""

/-- Carries out the steps to the parent, given the names so far, newest first. The parent
of the top is the top. -/
def resolveParts (above : List String) : List String → List String
  | [] => above.reverse
  | part :: rest =>
      if part == ".." then resolveParts above.tail rest else resolveParts (part :: above) rest

/-- The location that a path leads to when its steps to the parent are carried out. There are
no symbolic links, so this does not depend on what exists. -/
def locate (here : Location) (path : Path) : Location :=
  resolveParts (if path.anchor == .relative then here.reverse else []) path.parts

/-- The absolute path without steps to the parent. It has one separator in front. -/
def resolve (here : Location) (path : Path) : Path := ofLocation (path.locate here)

end Path

/-- A suffix that no file name can take. -/
structure SuffixError where
  suffix : String
deriving DecidableEq

def SuffixError.message (error : SuffixError) : String :=
  "Invalid suffix " ++ Text.quoted error.suffix

/-- Splits a name at its last point. A point at either end of the name counts for nothing,
so that such a name has no suffix. -/
def stemOf (name : String) : String :=
  let chars := name.toList
  let ending := chars.reverse.takeWhile (· != '.')
  let stem := chars.take (chars.length - ending.length - 1)
  if ending.isEmpty || stem.isEmpty || ending.length == chars.length then name
  else String.ofList stem

/-- Whether a text is empty or a point with something behind it, and has no separator. -/
def isSuffix (suffix : String) : Bool :=
  match suffix.toList with
  | [] => true
  | ['.'] => false
  | c :: rest => c == '.' && !(c :: rest).contains '/'

/-- Replaces the suffix of a name, or adds one to a name without. -/
def withSuffix (suffix : String) (name : String) : Except SuffixError String :=
  if isSuffix suffix then .ok (stemOf name ++ suffix) else .error ⟨suffix⟩

end TryGo.Build
