import TryGo.Token.Basic

/-! What the parser reports. A report is a cause together with the position of the token
that was current when the cause was found. The wording is fixed here and nowhere else, and
it does not depend on the position. -/
namespace TryGo

/-- Why a construct could not be read. -/
inductive Cause where
  | unexpected (wanted got : TokenKind)
  | noOperand (got : TokenKind)
  | noType (got : TokenKind)
  | badInteger (literal : String)
  | badFloat (literal : String)
  | notIdentifier (text : String)
deriving DecidableEq

def Cause.message : Cause → String
  | .unexpected wanted got =>
      "expected next token to be " ++ wanted.name ++ ", got " ++ got.name ++ " instead"
  | .noOperand got => "no prefix parse function for " ++ got.name ++ " found"
  | .noType got => "expected type, got " ++ got.name ++ " instead"
  | .badInteger literal => "could not parse \"" ++ literal ++ "\" as integer"
  | .badFloat literal => "could not parse \"" ++ literal ++ "\" as float"
  | .notIdentifier text => "expected identifier on left side of :=, got " ++ text

/-- One report of the parser. -/
structure Diagnostic where
  pos : Position
  cause : Cause
deriving DecidableEq

def Diagnostic.message (diagnostic : Diagnostic) : String := diagnostic.cause.message

end TryGo
