import TryGo.Parse.Cursor
import TryGo.Precedence

/-! Parsing of expressions by operator precedence. An expression that cannot be read is a
hole in the tree, and reading goes on around it; the reports tell that it is there. Each
function starts with the current token on the first token of its construct and ends with it
on the last one. -/
namespace TryGo.Parse

def integerLiteral : ParseM Expr := do
  let token ← cur
  match Number.integerValue? token.literal.toList with
  | some value => return .int token value
  | none =>
      report (.badInteger token.literal)
      return .missing

def floatLiteral : ParseM Expr := do
  let token ← cur
  match Number.Binary64.ofLiteral? token.literal.toList with
  | some value => return .float token value
  | none =>
      report (.badFloat token.literal)
      return .missing

mutual

/-- An expression of operators that bind tighter than `level`. -/
def expression : Nat → Nat → ParseM Expr
  | 0, _ => outOfFuel
  | fuel + 1, level => do
      let token ← cur
      match token.kind with
      | .ident => operators fuel level (.ident token token.literal)
      | .int => operators fuel level (← integerLiteral)
      | .float => operators fuel level (← floatLiteral)
      | .string => operators fuel level (.str token token.literal false)
      | .rawString => operators fuel level (.str token token.literal true)
      | .char => operators fuel level (.char token token.literal)
      | .kwTrue => operators fuel level (.bool token true)
      | .kwFalse => operators fuel level (.bool token false)
      | .kwNil => operators fuel level (.nil token)
      | .bang | .minus | .bitXor =>
          advance
          let operand ← expression fuel Precedence.unary.level
          operators fuel level (.unary token token.literal operand)
      | .lparen =>
          advance
          let inner ← expression fuel Precedence.lowest.level
          let closed ← accept .rparen
          operators fuel level (if closed then inner else .missing)
      | kind =>
          report (.noOperand kind)
          return .missing

/-- Continues an expression, of which `left` was read, as far as the operators that follow
bind tighter than `level`. -/
def operators : Nat → Nat → Expr → ParseM Expr
  | 0, _, _ => outOfFuel
  | fuel + 1, level, left => do
      let next ← peek
      if (Precedence.ofKind next.kind).level ≤ level then
        return left
      else
        advance
        match next.kind with
        | .lparen =>
            let args ← arguments fuel
            operators fuel level (.call next left args)
        | .lbracket =>
            advance
            let position ← expression fuel Precedence.lowest.level
            let closed ← accept .rbracket
            operators fuel level (if closed then .index next left position else .missing)
        | .dot =>
            if ← accept .ident then
              let field ← curIdent
              operators fuel level (.select next left field)
            else
              operators fuel level .missing
        | kind =>
            advance
            let right ← expression fuel (Precedence.ofKind kind).level
            operators fuel level (.binary next left next.literal right)

/-- The arguments of a call, from its opening parenthesis. A list that is not closed, or of
which one member is missing, counts as empty. -/
def arguments : Nat → ParseM (List Expr)
  | 0 => outOfFuel
  | fuel + 1 => do
      if ← peekIs .rparen then
        advance
        return []
      else
        advance
        match ← attempt (expressions fuel) with
        | none => return []
        | some args => return if ← accept .rparen then args else []

/-- One or more expressions with commas between them. The list is abandoned at the first
member that is missing. -/
def expressions : Nat → ParseM (List Expr)
  | 0 => outOfFuel
  | fuel + 1 => do
      let first ← expression fuel Precedence.lowest.level
      if first.isMissing then
        abandon
      else if ← peekIs .comma then
        advance
        advance
        return first :: (← expressions fuel)
      else
        return [first]

end

/-! Without fuel nothing is read. -/

@[simp]
theorem expression_zero (level : Nat) : expression 0 level = outOfFuel := by rw [expression]

@[simp]
theorem operators_zero (level : Nat) (left : Expr) : operators 0 level left = outOfFuel := by
  rw [operators]

@[simp]
theorem arguments_zero : arguments 0 = outOfFuel := by rw [arguments]

@[simp]
theorem expressions_zero : expressions 0 = outOfFuel := by rw [expressions]

/-- Enough fuel for the expressions that a number of tokens can hold. -/
def exprFuel (tokens : Nat) : Nat := 4 * tokens + 4

def readExpr : ParseM Expr := do
  expression (exprFuel (← tokensLeft)) Precedence.lowest.level

/-- An expression that starts at the current token and must not be missing. -/
def requireExpr : ParseM Expr := do
  let e ← readExpr
  if e.isMissing then abandon else return e

def readExprs : ParseM (List Expr) := do expressions (exprFuel (← tokensLeft))

end TryGo.Parse
