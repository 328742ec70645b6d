import TryGo.Number.Binary64
import TryGo.Precedence
import TryGo.Tree.Basic

/-! Expression phrases: the tokens of an expression together with their grammatical
structure. A phrase keeps every token, grouping parentheses and commas included, so that it
determines both the token list that it covers and the tree that it stands for. The tree has
no grouping parentheses.

Which phrases are allowed to nest in which is not part of the type. It depends on a table of
binding levels, and `ExprPhrase.Levelled` says it for any such table. -/
namespace TryGo

/-- A token of a given kind. -/
abbrev Mark (kind : TokenKind) := { token : Token // token.kind = kind }

/-- The kind of the first token of a list. At the end of a source stands the end mark. -/
def nextKind : List Token → TokenKind
  | [] => .eof
  | token :: _ => token.kind

@[simp] theorem nextKind_nil : nextKind [] = .eof := rfl

@[simp] theorem nextKind_cons (token : Token) (tokens : List Token) :
    nextKind (token :: tokens) = token.kind := rfl

/-- Nothing has to be shown of a part that is absent. -/
theorem forall_none {α : Type} {P : α → Prop} : ∀ part, none = some part → P part :=
  fun _ hNone => absurd hNone.symm (Option.some_ne_none _)

/-- The operand that a single token is. A number whose literal has no value is none. -/
def operand? (token : Token) : Option Expr :=
  match token.kind with
  | .ident => some (.ident token token.literal)
  | .int => (Number.integerValue? token.literal.toList).map fun (value : Nat) => .int token value
  | .float => (Number.Binary64.ofLiteral? token.literal.toList).map fun value => .float token value
  | .string => some (.str token token.literal false)
  | .rawString => some (.str token token.literal true)
  | .char => some (.char token token.literal)
  | .kwTrue => some (.bool token true)
  | .kwFalse => some (.bool token false)
  | .kwNil => some (.nil token)
  | _ => none

namespace TokenKind

/-- The level at which the parser lets a kind continue an expression. -/
def level (kind : TokenKind) : Nat := (Precedence.ofKind kind).level

def isUnary (kind : TokenKind) : Bool := kind == .bang || kind == .minus || kind == .bitXor

/-- The binary operators: they continue an expression and bind less than a call does. -/
def isBinary (kind : TokenKind) : Bool :=
  Precedence.lowest.level < kind.level && kind.level < Precedence.call.level

def unaryKinds : List TokenKind := [.bang, .minus, .bitXor]

def binaryKinds : List TokenKind :=
  [.or, .and, .eq, .notEq, .lt, .gt, .le, .ge, .plus, .minus, .bitOr, .bitXor, .asterisk, .slash,
   .percent, .bitAnd, .shl, .shr]

theorem mem_unaryKinds {kind : TokenKind} (hUnary : kind.isUnary = true) : kind ∈ unaryKinds := by
  simpa [isUnary, unaryKinds, or_assoc] using hUnary

theorem mem_binaryKinds {kind : TokenKind} (hBinary : kind.isBinary = true) :
    kind ∈ binaryKinds := by
  cases kind <;> first | decide | exact absurd hBinary (by decide)

/-- No binary operator binds as tightly as a unary one. -/
theorem level_lt_unary_of_isBinary {kind : TokenKind} (hBinary : kind.isBinary = true) :
    kind.level < Precedence.unary.level := by
  have hTable : ∀ kind ∈ binaryKinds, kind.level < Precedence.unary.level := by decide
  exact hTable kind (mem_binaryKinds hBinary)

/-- Every operator binds above the lowest level. -/
theorem lowest_lt_level_of_isBinary {kind : TokenKind} (hBinary : kind.isBinary = true) :
    Precedence.lowest.level < kind.level := by
  simp only [isBinary, Bool.and_eq_true, decide_eq_true_eq] at hBinary
  exact hBinary.1

/-- What continues an expression is a binary operator or starts a call, an index or a
selector. -/
theorem cases_of_lowest_lt_level {kind : TokenKind}
    (hLevel : Precedence.lowest.level < kind.level) :
    kind.isBinary = true ∨ kind = .lparen ∨ kind = .lbracket ∨ kind = .dot := by
  cases kind <;> first | decide | exact absurd hLevel (by decide)

/-- Nothing binds tighter than a selector. -/
theorem level_le_dot (kind : TokenKind) : kind.level ≤ Precedence.dot.level := by
  cases kind <;> decide

def exprStarts : List TokenKind :=
  [.ident, .int, .float, .string, .rawString, .char, .kwTrue, .kwFalse, .kwNil, .bang, .minus,
   .bitXor, .lparen]

end TokenKind

mutual

/-- The phrases of expressions. -/
inductive ExprPhrase where
  | atom (token : Token) (value : Expr) (hValue : operand? token = some value)
  | group (opening : Mark .lparen) (inner : ExprPhrase) (closing : Mark .rparen)
  | unary (op : Token) (hOp : op.kind.isUnary = true) (operand : ExprPhrase)
  | binary (left : ExprPhrase) (op : Token) (hOp : op.kind.isBinary = true) (right : ExprPhrase)
  | callEmpty (callee : ExprPhrase) (opening : Mark .lparen) (closing : Mark .rparen)
  | call (callee : ExprPhrase) (opening : Mark .lparen) (args : ExprsPhrase)
      (closing : Mark .rparen)
  | select (left : ExprPhrase) (dot : Mark .dot) (field : Mark .ident)
  | index (left : ExprPhrase) (opening : Mark .lbracket) (position : ExprPhrase)
      (closing : Mark .rbracket)

inductive ExprsPhrase where
  | last (e : ExprPhrase)
  | more (e : ExprPhrase) (comma : Mark .comma) (rest : ExprsPhrase)

end

mutual

def ExprPhrase.tokens : ExprPhrase → List Token
  | .atom token _ _ => [token]
  | .group opening inner closing => opening.val :: (inner.tokens ++ [closing.val])
  | .unary op _ operand => op :: operand.tokens
  | .binary left op _ right => left.tokens ++ op :: right.tokens
  | .callEmpty callee opening closing => callee.tokens ++ [opening.val, closing.val]
  | .call callee opening args closing =>
      callee.tokens ++ opening.val :: (args.tokens ++ [closing.val])
  | .select left dot field => left.tokens ++ [dot.val, field.val]
  | .index left opening position closing =>
      left.tokens ++ opening.val :: (position.tokens ++ [closing.val])

def ExprsPhrase.tokens : ExprsPhrase → List Token
  | .last e => e.tokens
  | .more e comma rest => e.tokens ++ comma.val :: rest.tokens

end

mutual

/-- The tree of a phrase. Grouping leaves no trace in it. -/
def ExprPhrase.tree : ExprPhrase → Expr
  | .atom _ value _ => value
  | .group _ inner _ => inner.tree
  | .unary op _ operand => .unary op op.literal operand.tree
  | .binary left op _ right => .binary op left.tree op.literal right.tree
  | .callEmpty callee opening _ => .call opening.val callee.tree []
  | .call callee opening args _ => .call opening.val callee.tree args.trees
  | .select left dot field =>
      .select dot.val left.tree (.ident field.val field.val.literal)
  | .index left opening position _ => .index opening.val left.tree position.tree

def ExprsPhrase.trees : ExprsPhrase → List Expr
  | .last e => [e.tree]
  | .more e _ rest => e.tree :: rest.trees

end

/-- The level of the outermost operator of a phrase. Everything that is closed, be it by
parentheses or by being one operand, has the highest. -/
def ExprPhrase.level (table : TokenKind → Nat) : ExprPhrase → Nat
  | .binary _ op _ _ => table op.kind
  | .unary _ _ _ => Precedence.unary.level
  | _ => Precedence.dot.level

mutual

/-- Whether a phrase nests as a table of levels asks for. The left operand of a binary
operator binds at least as tightly as the operator, the right one binds tighter, the operand
of a unary operator is no binary phrase, and what is called, selected from or indexed has no
operator outside parentheses. -/
def ExprPhrase.Levelled (table : TokenKind → Nat) : ExprPhrase → Prop
  | .atom _ _ _ => True
  | .group _ inner _ => inner.Levelled table
  | .unary _ _ operand =>
      Precedence.unary.level ≤ operand.level table ∧ operand.Levelled table
  | .binary left op _ right =>
      table op.kind ≤ left.level table ∧ table op.kind < right.level table
        ∧ left.Levelled table ∧ right.Levelled table
  | .callEmpty callee _ _ => Precedence.call.level ≤ callee.level table ∧ callee.Levelled table
  | .call callee _ args _ =>
      Precedence.call.level ≤ callee.level table ∧ callee.Levelled table ∧ args.Levelled table
  | .select left _ _ => Precedence.call.level ≤ left.level table ∧ left.Levelled table
  | .index left _ position _ =>
      Precedence.call.level ≤ left.level table ∧ left.Levelled table ∧ position.Levelled table

def ExprsPhrase.Levelled (table : TokenKind → Nat) : ExprsPhrase → Prop
  | .last e => e.Levelled table
  | .more e _ rest => e.Levelled table ∧ rest.Levelled table

end

/-- Whether no parentheses stand around a phrase that would reach a level without them. -/
def ExprPhrase.BareAt (table : TokenKind → Nat) (level : Nat) : ExprPhrase → Prop
  | .group _ inner _ => inner.level table < level
  | _ => True

mutual

/-- Whether every part of a phrase stands in parentheses only if its place asks for a higher level
than it has. Under a unary operator a unary phrase may stand in parentheses too. -/
def ExprPhrase.Sparing (table : TokenKind → Nat) : ExprPhrase → Prop
  | .atom _ _ _ => True
  | .group _ inner _ => inner.BareAt table Precedence.lowest.level ∧ inner.Sparing table
  | .unary _ _ operand =>
      operand.BareAt table (Precedence.unary.level + 1) ∧ operand.Sparing table
  | .binary left op _ right =>
      left.BareAt table (table op.kind) ∧ right.BareAt table (table op.kind + 1)
        ∧ left.Sparing table ∧ right.Sparing table
  | .callEmpty callee _ _ => callee.BareAt table Precedence.call.level ∧ callee.Sparing table
  | .call callee _ args _ =>
      callee.BareAt table Precedence.call.level ∧ callee.Sparing table ∧ args.Sparing table
  | .select left _ _ => left.BareAt table Precedence.call.level ∧ left.Sparing table
  | .index left _ position _ =>
      left.BareAt table Precedence.call.level ∧ position.BareAt table Precedence.lowest.level
        ∧ left.Sparing table ∧ position.Sparing table

def ExprsPhrase.Sparing (table : TokenKind → Nat) : ExprsPhrase → Prop
  | .last e => e.BareAt table Precedence.lowest.level ∧ e.Sparing table
  | .more e _ rest =>
      e.BareAt table Precedence.lowest.level ∧ e.Sparing table ∧ rest.Sparing table

end

/-- Whether a phrase may be read where binary operators have to bind tighter than a level. A
phrase without an outermost binary operator may be read anywhere an operand may. -/
def ExprPhrase.BindsAbove (table : TokenKind → Nat) (level : Nat) (phrase : ExprPhrase) : Prop :=
  level ≤ Precedence.unary.level
    ∧ (phrase.level table < Precedence.unary.level → level < phrase.level table)

/-- Every phrase may be read where any operator is allowed. -/
theorem ExprPhrase.bindsAbove_lowest (phrase : ExprPhrase) :
    phrase.BindsAbove TokenKind.level Precedence.lowest.level := by
  refine ⟨by decide, fun hBinary => ?_⟩
  cases phrase with
  | binary _ op hOp _ => exact TokenKind.lowest_lt_level_of_isBinary hOp
  | _ => exact absurd hBinary (by simp [ExprPhrase.level, Precedence.level])

namespace ExprPhrase

variable {table : TokenKind → Nat} {level : Nat} {phrase : ExprPhrase}

/-- What binds above a level leaves calls above it too. -/
theorem BindsAbove.lt_call (hBinds : phrase.BindsAbove table level) :
    level < Precedence.call.level :=
  Nat.lt_of_le_of_lt hBinds.1 (by decide)

/-- What binds above a level is at least at that level. -/
theorem BindsAbove.le_level (hBinds : phrase.BindsAbove table level) :
    level ≤ phrase.level table := by
  obtain ⟨hUnary, hBinary⟩ := hBinds
  by_cases hLevel : phrase.level table < Precedence.unary.level
  · exact Nat.le_of_lt (hBinary hLevel)
  · exact Nat.le_trans hUnary (Nat.not_lt.mp hLevel)

/-- A phrase without operators outside parentheses may be read anywhere. -/
theorem bindsAbove_of_primary (hPrimary : Precedence.call.level ≤ phrase.level table)
    (hLevel : level ≤ Precedence.unary.level) : phrase.BindsAbove table level :=
  ⟨hLevel, fun hBinary =>
    absurd (Nat.lt_of_le_of_lt hPrimary hBinary) (by decide)⟩

/-- Whatever follows a phrase without operators outside parentheses may continue it. -/
theorem level_le_of_primary (hPrimary : Precedence.call.level ≤ phrase.level TokenKind.level)
    (kind : TokenKind) : kind.level ≤ phrase.level TokenKind.level := by
  cases phrase with
  | binary _ op hOp _ =>
      have hBinary := TokenKind.level_lt_unary_of_isBinary hOp
      exact absurd (Nat.lt_of_le_of_lt hPrimary hBinary) (by decide)
  | unary => exact absurd hPrimary (by simp [ExprPhrase.level, Precedence.level])
  | _ => exact TokenKind.level_le_dot kind

end ExprPhrase

theorem ExprPhrase.length_tokens_pos (phrase : ExprPhrase) : 0 < phrase.tokens.length := by
  cases phrase <;> simp only [ExprPhrase.tokens, List.length_append, List.length_cons] <;> omega

theorem ExprPhrase.tokens_ne_nil (phrase : ExprPhrase) : phrase.tokens ≠ [] :=
  List.ne_nil_of_length_pos phrase.length_tokens_pos

theorem ExprsPhrase.tokens_ne_nil (phrase : ExprsPhrase) : phrase.tokens ≠ [] := by
  cases phrase with
  | last e => exact e.tokens_ne_nil
  | more e comma rest => simp [ExprsPhrase.tokens]

/-- An operand may start an expression. -/
theorem kind_mem_exprStarts_of_operand {token : Token} {value : Expr}
    (hValue : operand? token = some value) : token.kind ∈ TokenKind.exprStarts := by
  unfold operand? at hValue
  split at hValue
  case h_10 => cases hValue
  all_goals simp_all [TokenKind.exprStarts]

/-- An expression phrase starts with a token that can start one. -/
theorem ExprPhrase.nextKind_mem (phrase : ExprPhrase) (more : List Token) :
    nextKind (phrase.tokens ++ more) ∈ TokenKind.exprStarts := by
  match phrase with
  | .atom token value hValue => exact kind_mem_exprStarts_of_operand hValue
  | .group opening inner closing =>
      rw [tokens, List.cons_append, nextKind_cons, opening.property]
      decide
  | .unary op hOp operand =>
      have hKinds : op.kind = .bang ∨ op.kind = .minus ∨ op.kind = .bitXor := by
        simpa [TokenKind.isUnary, or_assoc] using hOp
      rw [tokens, List.cons_append, nextKind_cons]
      rcases hKinds with hKind | hKind | hKind <;> rw [hKind] <;> decide
  | .binary left _ _ _ | .callEmpty left _ _ | .call left _ _ _ | .select left _ _
  | .index left _ _ _ =>
      rw [tokens, List.append_assoc]
      exact left.nextKind_mem _

theorem ExprsPhrase.nextKind_mem (phrase : ExprsPhrase) (more : List Token) :
    nextKind (phrase.tokens ++ more) ∈ TokenKind.exprStarts := by
  cases phrase with
  | last e => exact e.nextKind_mem more
  | more e comma rest =>
      rw [tokens, List.append_assoc]
      exact e.nextKind_mem _

/-- A phrase starts with nothing that starts no expression. -/
theorem ExprPhrase.nextKind_ne {kind : TokenKind} (hKind : kind ∉ TokenKind.exprStarts)
    (phrase : ExprPhrase) (more : List Token) : nextKind (phrase.tokens ++ more) ≠ kind :=
  fun hEq => hKind (hEq ▸ phrase.nextKind_mem more)

theorem ExprsPhrase.nextKind_ne {kind : TokenKind} (hKind : kind ∉ TokenKind.exprStarts)
    (phrase : ExprsPhrase) (more : List Token) : nextKind (phrase.tokens ++ more) ≠ kind :=
  fun hEq => hKind (hEq ▸ phrase.nextKind_mem more)

theorem isMissing_operand {token : Token} {value : Expr} (hValue : operand? token = some value) :
    value.isMissing = false := by
  unfold operand? at hValue
  split at hValue <;> simp only [Option.map_eq_some_iff, Option.some.injEq, reduceCtorEq] at hValue
  all_goals first
    | (subst hValue; rfl)
    | (obtain ⟨_, _, rfl⟩ := hValue; rfl)

/-- No phrase stands for a hole. -/
theorem ExprPhrase.isMissing_tree : (phrase : ExprPhrase) → phrase.tree.isMissing = false
  | .atom _ _ hValue => isMissing_operand hValue
  | .group _ inner _ => inner.isMissing_tree
  | .unary _ _ _ | .binary _ _ _ _ | .callEmpty _ _ _ | .call _ _ _ _ | .select _ _ _
  | .index _ _ _ _ => rfl

end TryGo
