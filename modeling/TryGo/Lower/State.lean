import TryGo.Go.Line
import TryGo.Log

/-! The state in which statements are lowered. Lines and events are kept newest first. The
innermost function or closure is at the head of the frames, and the innermost Go block at
the head of the scopes. -/
namespace TryGo.Lower

/-- The results of the function or closure that is being lowered. `augmented` says that an
error was added to what the function declared, so that its own returns need a nil more. -/
structure Frame where
  results : List String
  augmented : Bool
deriving DecidableEq

structure State where
  lines : List Go.Line
  depth : Nat
  frames : List Frame
  scopes : List (List String)
  events : List Event

def State.init : State := ⟨[], 0, [], [[]], []⟩

/-- What makes a tree impossible to lower. Parsed programs have none of these. -/
inductive Fault where
  | noKeyword (kind : TokenKind)
  | notBlock (kind : NodeKind)
  | notCatch (kind : NodeKind)
  | render (error : RenderError)
deriving DecidableEq

def Fault.message : Fault → String
  | .noKeyword kind => "<TokenType." ++ kind.name ++ ": " ++ toString kind.number ++ ">"
  | .notBlock kind => "'" ++ kind.name ++ "' object has no attribute 'statements'"
  | .notCatch kind => "'" ++ kind.name ++ "' object has no attribute 'is_catch_all'"
  | .render error => error.message

end Lower

/-- A lowering step. Its state survives a fault. -/
abbrev LowerM := EStateM Lower.Fault Lower.State

namespace Lower

/-- Writes a line at the current depth. -/
def emit (code : Go.Code) : LowerM Unit :=
  modify fun s => { s with lines := ⟨s.depth, code⟩ :: s.lines }

def record (event : Event) : LowerM Unit :=
  modify fun s => { s with events := event :: s.events }

/-- Adds names to the innermost scope. -/
def declare (names : List String) : LowerM Unit :=
  modify fun s =>
    { s with scopes := match s.scopes with
        | [] => []
        | scope :: scopes => (names ++ scope) :: scopes }

def isDeclared (name : String) : LowerM Bool :=
  return ((← get).scopes.headD []).contains name

/-- The frame of the innermost function or closure. At top level there is none. -/
def frame? : LowerM (Option Frame) := return (← get).frames.head?

def pushScope : LowerM Unit := modify fun s => { s with scopes := [] :: s.scopes }

def popScope : LowerM Unit := modify fun s => { s with scopes := s.scopes.tail }

def indent : LowerM Unit := modify fun s => { s with depth := s.depth + 1 }

def dedent : LowerM Unit := modify fun s => { s with depth := s.depth - 1 }

def pushFrame (frame : Frame) : LowerM Unit :=
  modify fun s => { s with frames := frame :: s.frames }

def popFrame : LowerM Unit := modify fun s => { s with frames := s.frames.tail }

/-- Runs a step one level deeper, in a scope of its own that starts with some names. -/
def inBlock (names : List String) (body : LowerM Unit) : LowerM Unit := do
  indent
  pushScope
  declare names
  body
  popScope
  dedent

def inFrame (frame : Frame) (body : LowerM Unit) : LowerM Unit := do
  pushFrame frame
  body
  popFrame

/-- Runs a step in a scope of its own at the same depth. -/
def inScope (body : LowerM Unit) : LowerM Unit := do
  pushScope
  body
  popScope

/-- Runs a step one level deeper in the same scope. -/
def deeper (body : LowerM Unit) : LowerM Unit := do
  indent
  body
  dedent

end TryGo.Lower
