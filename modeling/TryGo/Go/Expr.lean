import TryGo.Precedence
import TryGo.Tree.Text

/-! Expressions as Go source, with parentheses only where the levels of the operators call
for them. Numbers keep their spelling.

There are two printers. `goText` follows the shape of the expression. `goTextBefore` is
given the text that follows and puts the expression in front of it; it reaches the left
operand of an operator last, so that a long chain of operators is walked in a loop. -/
namespace TryGo

/-- What is written in place of a node that has no Go form. -/
def placeholder (kind : NodeKind) : String := "/* unsupported node: " ++ kind.name ++ " */"

/-- The level of the outermost operator of an expression. Operands have the highest. -/
def Expr.goLevel : Expr → Nat
  | .binary _ _ op _ => (Precedence.ofOperator op).level
  | .unary _ _ _ => Precedence.unary.level
  | _ => Precedence.dot.level

def Expr.isUnary : Expr → Bool
  | .unary _ _ _ => true
  | _ => false

/-- Whether an operand of a unary operator stands in parentheses. A unary operand does, so
that two signs never run together. -/
def Expr.needsParensInUnary (e : Expr) : Bool :=
  e.isUnary || decide (e.goLevel < Precedence.unary.level)

/-- Puts a text in parentheses if asked to. -/
def parenIf (wanted : Bool) (text : String) : String :=
  if wanted then "(" ++ text ++ ")" else text

mutual

/-- An expression as Go source. -/
def Expr.goText : Expr → String
  | .missing => placeholder .absent
  | .ident _ name => name
  | .int token _ => token.literal
  | .float token _ => token.literal
  | .str _ value raw => stringText value raw
  | .char _ value => charText value
  | .bool _ value => boolText value
  | .nil _ => "nil"
  | .unary _ op operand => op ++ parenIf operand.needsParensInUnary operand.goText
  | .binary _ left op right =>
      let level := (Precedence.ofOperator op).level
      parenIf (left.goLevel < level) left.goText ++ " " ++ op ++ " "
        ++ parenIf (right.goLevel < level + 1) right.goText
  | .call _ callee args =>
      parenIf (callee.goLevel < Precedence.call.level) callee.goText
        ++ "(" ++ Text.commaSeparated (Expr.goTexts args) ++ ")"
  | .select _ left field =>
      parenIf (left.goLevel < Precedence.call.level) left.goText ++ "." ++ field.text
  | .index _ left position =>
      parenIf (left.goLevel < Precedence.call.level) left.goText ++ "[" ++ position.goText ++ "]"
  | .foreign kind _ _ => placeholder kind

/-- Expressions as Go source. -/
def Expr.goTexts : List Expr → List String
  | [] => []
  | e :: es => e.goText :: Expr.goTexts es

end

mutual

/-- An expression as Go source in front of a text, in parentheses if its level is below
`parent`. -/
def Expr.goTextBefore (parent : Nat) (suffix : String) : Expr → String
  | .binary _ left op right =>
      let level := (Precedence.ofOperator op).level
      if level < parent then
        "(" ++ left.goTextBefore level
          (" " ++ op ++ " " ++ right.goTextBefore (level + 1) (")" ++ suffix))
      else
        left.goTextBefore level (" " ++ op ++ " " ++ right.goTextBefore (level + 1) suffix)
  | .unary _ op operand =>
      let inner := op ++ (if operand.isUnary then
          "(" ++ operand.goTextBefore Precedence.unary.level ")"
        else operand.goTextBefore Precedence.unary.level "")
      parenIf (Precedence.unary.level < parent) inner ++ suffix
  | .call _ callee args =>
      callee.goTextBefore Precedence.call.level
        ("(" ++ Text.commaSeparated (Expr.goTextsBefore args) ++ ")" ++ suffix)
  | .select _ left field =>
      left.goTextBefore Precedence.call.level ("." ++ field.text ++ suffix)
  | .index _ left position =>
      left.goTextBefore Precedence.call.level
        ("[" ++ position.goTextBefore Precedence.lowest.level ("]" ++ suffix))
  | .missing => placeholder .absent ++ suffix
  | .ident _ name => name ++ suffix
  | .int token _ => token.literal ++ suffix
  | .float token _ => token.literal ++ suffix
  | .str _ value raw => stringText value raw ++ suffix
  | .char _ value => charText value ++ suffix
  | .bool _ value => boolText value ++ suffix
  | .nil _ => "nil" ++ suffix
  | .foreign kind _ _ => placeholder kind ++ suffix

def Expr.goTextsBefore : List Expr → List String
  | [] => []
  | e :: es => e.goTextBefore Precedence.lowest.level "" :: Expr.goTextsBefore es

end

mutual

/-- Whether the field of a selector in an expression has no debugging form, in which a field
is written. -/
def Expr.hasLongField : Expr → Bool
  | .unary _ _ operand => operand.hasLongField
  | .binary _ left _ right => left.hasLongField || right.hasLongField
  | .call _ callee args => callee.hasLongField || Expr.anyLongField args
  | .select _ left field => left.hasLongField || field.hasLongInteger
  | .index _ left position => left.hasLongField || position.hasLongField
  | _ => false

def Expr.anyLongField : List Expr → Bool
  | [] => false
  | e :: es => e.hasLongField || Expr.anyLongField es

end

/-- An expression as Go source where the level must be at least `parent`. -/
def Expr.goAt (e : Expr) (parent : Nat) : String := e.goTextBefore parent ""

/-- An expression as Go source. -/
def Expr.go (e : Expr) : String := e.goAt Precedence.lowest.level

end TryGo
