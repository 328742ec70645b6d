import TryGo.Diagnostic
import TryGo.Token.Lexer
import TryGo.Tree.Text

/-! The state of the parser and its elementary steps. The parser sees the current token and
the one after it. It moves forward only, and past the end it stays on the end mark.

A step ends in a value or in a halt. The ordinary halt is that a construct was abandoned;
the reports that explain it are in the state, and whoever reads a list of constructs goes
on after it. The other two halts end the whole parse. One of them, running out of fuel, is
there only to make the recursion evident: the fuel is computed from the input. -/
namespace TryGo.Parse

/-- The unread tokens, the current one first, without the end mark. -/
structure Cursor where
  rest : List Token
  endPos : Position
deriving DecidableEq

namespace Cursor

def cur (cursor : Cursor) : Token := cursor.rest.headD (Token.eof cursor.endPos)

/-- The token after the current one. -/
def peek (cursor : Cursor) : Token := cursor.rest.tail.headD (Token.eof cursor.endPos)

def advance (cursor : Cursor) : Cursor := { cursor with rest := cursor.rest.tail }

/-- The cursor before the first token of a lexer. -/
def ofLexer (lexer : Lexer) : Cursor := ⟨lexer.words, lexer.endPos⟩

end Cursor

/-- What parsing carries along. Reports are kept newest first. `trailing` holds comments
that were read behind a try statement and still have to be placed after it. -/
structure State where
  cursor : Cursor
  reports : List Diagnostic
  trailing : List Stmt

/-- Why a step gave no value. -/
inductive Halt where
  | abandoned
  | unrenderable (error : RenderError)
  | outOfFuel
deriving DecidableEq

end Parse

/-- A parsing step. Its state survives a halt. -/
abbrev ParseM := EStateM Parse.Halt Parse.State

namespace Parse

/-- The current token. -/
def cur : ParseM Token := return (← get).cursor.cur

/-- The token after the current one. -/
def peek : ParseM Token := return (← get).cursor.peek

/-- Moves to the next token. -/
def advance : ParseM Unit := modify fun s => { s with cursor := s.cursor.advance }

/-- Whether the token after the current one is of a kind. -/
def peekIs (kind : TokenKind) : ParseM Bool := return (← peek).kind == kind

/-- Reports a cause at the current token. -/
def report (cause : Cause) : ParseM Unit :=
  modify fun s => { s with reports := ⟨s.cursor.cur.pos, cause⟩ :: s.reports }

/-- Gives up the construct that is being read. -/
def abandon {α : Type} : ParseM α := throw .abandoned

def outOfFuel {α : Type} : ParseM α := throw .outOfFuel

/-- Runs a step and tells whether it was abandoned. The other halts go through. -/
def attempt {α : Type} (step : ParseM α) : ParseM (Option α) := fun s =>
  match step s with
  | .ok a s => .ok (some a) s
  | .error .abandoned s => .ok none s
  | .error halt s => .error halt s

/-- Moves on if the next token is of the kind. Otherwise it reports that and stays. -/
def accept (kind : TokenKind) : ParseM Bool := do
  let next ← peek
  if next.kind == kind then
    advance
    return true
  else
    report (.unexpected kind next.kind)
    return false

/-- Moves on if the next token is of the kind, and gives up the construct otherwise. -/
def expect (kind : TokenKind) : ParseM Unit := do
  if ← accept kind then return () else abandon

def curIdent : ParseM Expr := do
  let token ← cur
  return .ident token token.literal

/-- Moves over the comments that follow the current token, so that the last of them
becomes current, and returns them. -/
def skipComments : ParseM (List Token) := fun s =>
  let comments := s.cursor.rest.tail.takeWhile fun token => token.kind.isComment
  .ok comments { s with cursor := { s.cursor with rest := s.cursor.rest.drop comments.length } }

/-- Takes the comments that wait for their place. -/
def takeTrailing : ParseM (List Stmt) := do
  let waiting := (← get).trailing
  modify fun s => { s with trailing := [] }
  return waiting

/-- Leaves comments to be placed after the statement that is being read. -/
def leaveTrailing (comments : List Stmt) : ParseM Unit :=
  modify fun s => { s with trailing := s.trailing ++ comments }

/-- The number of tokens that are left, the current one included. -/
def tokensLeft : ParseM Nat := return (← get).cursor.rest.length

end TryGo.Parse
