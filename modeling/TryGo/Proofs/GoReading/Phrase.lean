import TryGo.Proofs.Parse.Expr
import TryGo.Proofs.Tree.Erase

/-! How Go reads an expression. Go has five levels of binary operators where the parser has six:
in Go all comparisons bind alike, while for the parser an equality binds less tightly than
an order comparison. A reading of a text is a phrase of its tokens that nests by the levels
of Go.

A text has at most one reading. If every order comparison were an equality, the two tables would
order the operators alike, so a phrase that nests by one would nest by the other, and
the parser reads tokens in one way only. -/
namespace TryGo

namespace TokenKind

/-- The levels of the binary operators in Go, the loosest first. -/
def goLevel : TokenKind → Nat
  | .or => 1
  | .and => 2
  | .eq | .notEq | .lt | .le | .gt | .ge => 3
  | .plus | .minus | .bitOr | .bitXor => 4
  | .asterisk | .slash | .percent | .shl | .shr | .bitAnd => 5
  | _ => 0

def isEquality (kind : TokenKind) : Bool := kind == .eq || kind == .notEq

def isRelational (kind : TokenKind) : Bool :=
  kind == .lt || kind == .le || kind == .gt || kind == .ge

end TokenKind

/-- The level in Go of what has a level for the parser. Unary operators and everything closed
have the same level for both. -/
def goLevelOf (level : Nat) : Nat :=
  if level ≤ Precedence.equals.level then level - 1
  else if level < Precedence.unary.level then level - 2
  else level

/-- The levels of Go are in the order of those of the source. -/
theorem goLevelOf_mono {a b : Nat} (hLe : a ≤ b) : goLevelOf a ≤ goLevelOf b := by
  simp only [goLevelOf, Precedence.level]
  grind

/-- The tables order levels alike but for the two levels of comparisons. -/
theorem goLevelOf_strict {a b : Nat} (hLt : a < b) (hLowest : Precedence.lowest.level ≤ a)
    (hMixed : a ≠ Precedence.equals.level ∨ b ≠ Precedence.lessGreater.level) :
    goLevelOf a < goLevelOf b := by
  simp only [goLevelOf, Precedence.level] at *
  grind

namespace TokenKind

variable {kind : TokenKind}

/-- The level of an operator in Go depends on its level in the source only. -/
theorem goLevel_eq (hBinary : kind.isBinary = true) : kind.goLevel = goLevelOf kind.level := by
  have hTable : ∀ kind ∈ binaryKinds, kind.goLevel = goLevelOf kind.level := by decide
  exact hTable kind (mem_binaryKinds hBinary)

/-- An equality has one level in the source and that of all comparisons in Go. -/
theorem level_of_isEquality (hKind : kind.isEquality = true) :
    kind.level = Precedence.equals.level ∧ kind.goLevel = 3 := by
  cases kind <;> first | decide | exact absurd hKind (by decide)

/-- An order has a level of its own in the source and that of all comparisons in Go. -/
theorem level_of_isRelational (hKind : kind.isRelational = true) :
    kind.level = Precedence.lessGreater.level ∧ kind.goLevel = 3 := by
  cases kind <;> first | decide | exact absurd hKind (by decide)

theorem isEquality_of_isRelational (hKind : kind.isRelational = true) :
    kind.isEquality = false := by
  cases kind <;> first | rfl | exact absurd hKind (by decide)

/-- Only equalities have their level. -/
theorem isEquality_of_level (hBinary : kind.isBinary = true)
    (hLevel : kind.level = Precedence.equals.level) : kind.isEquality = true := by
  have hTable : ∀ kind ∈ binaryKinds, kind.level = Precedence.equals.level →
      kind.isEquality = true := by decide
  exact hTable kind (mem_binaryKinds hBinary) hLevel

/-- Only orders have their level. -/
theorem isRelational_of_level (hBinary : kind.isBinary = true)
    (hLevel : kind.level = Precedence.lessGreater.level) : kind.isRelational = true := by
  have hTable : ∀ kind ∈ binaryKinds, kind.level = Precedence.lessGreater.level →
      kind.isRelational = true := by decide
  exact hTable kind (mem_binaryKinds hBinary) hLevel

end TokenKind

/-- A phrase has the level in Go that belongs to its level in the source. -/
theorem ExprPhrase.goLevel_eq (phrase : ExprPhrase) :
    phrase.level TokenKind.goLevel = goLevelOf (phrase.level TokenKind.level) := by
  cases phrase with
  | binary left op hOp right => exact TokenKind.goLevel_eq hOp
  | _ => rfl

/-! ### One reading -/

/-- The kind with every order comparison turned into an equality. -/
def TokenKind.merged (kind : TokenKind) : TokenKind := if kind.isRelational then .eq else kind

namespace TokenKind

/-- Only an order is merged into something else. -/
theorem merged_eq {kind : TokenKind} (hKind : kind.isRelational = false) : kind.merged = kind := by
  rw [merged, hKind]
  rfl

theorem isBinary_merged {kind : TokenKind} (hBinary : kind.isBinary = true) :
    kind.merged.isBinary = true := by
  rw [merged]
  split
  · rfl
  · exact hBinary

/-- Merging changes no level of Go. -/
theorem goLevel_merged (kind : TokenKind) : kind.merged.goLevel = kind.goLevel := by
  cases kind <;> rfl

/-- Nothing that is merged has the level of the orders. -/
theorem level_merged_ne (kind : TokenKind) :
    kind.merged.level ≠ Precedence.lessGreater.level := by
  cases kind <;> decide

end TokenKind

/-- The token with its kind merged. Its literal stays. -/
def Token.merged (token : Token) : Token := { token with kind := token.kind.merged }

theorem Token.merged_eq {token : Token} (hKind : token.kind.isRelational = false) :
    token.merged = token := by
  rw [Token.merged, TokenKind.merged_eq hKind]

theorem Mark.merged_eq {kind : TokenKind} (mark : Mark kind)
    (hKind : kind.isRelational = false) : mark.val.merged = mark.val :=
  Token.merged_eq (by rw [mark.property, hKind])

mutual

def ExprPhrase.merged : ExprPhrase → ExprPhrase
  | .atom token value hValue => .atom token value hValue
  | .group opening inner closing => .group opening inner.merged closing
  | .unary op hOp operand => .unary op hOp operand.merged
  | .binary left op hOp right =>
      .binary left.merged op.merged (TokenKind.isBinary_merged hOp) right.merged
  | .callEmpty callee opening closing => .callEmpty callee.merged opening closing
  | .call callee opening args closing => .call callee.merged opening args.merged closing
  | .select left dot field => .select left.merged dot field
  | .index left opening position closing => .index left.merged opening position.merged closing

def ExprsPhrase.merged : ExprsPhrase → ExprsPhrase
  | .last e => .last e.merged
  | .more e comma rest => .more e.merged comma rest.merged

end

theorem isRelational_of_mem_exprStarts {kind : TokenKind} (hKind : kind ∈ TokenKind.exprStarts) :
    kind.isRelational = false := by
  have hTable : ∀ kind ∈ TokenKind.exprStarts, kind.isRelational = false := by decide
  exact hTable kind hKind

theorem isRelational_of_isUnary {kind : TokenKind} (hKind : kind.isUnary = true) :
    kind.isRelational = false := by
  have hTable : ∀ kind ∈ TokenKind.unaryKinds, kind.isRelational = false := by decide
  exact hTable kind (TokenKind.mem_unaryKinds hKind)

mutual

/-- A merged phrase has the merged tokens. -/
theorem ExprPhrase.tokens_merged :
    (phrase : ExprPhrase) → phrase.merged.tokens = phrase.tokens.map Token.merged
  | .atom token _ hValue => by
      have hKind := isRelational_of_mem_exprStarts (kind_mem_exprStarts_of_operand hValue)
      simp only [ExprPhrase.merged, ExprPhrase.tokens, List.map_cons, List.map_nil,
        Token.merged_eq hKind]
  | .group opening inner closing => by
      simp only [ExprPhrase.merged, ExprPhrase.tokens, List.map_cons, List.map_append, List.map_nil,
        inner.tokens_merged, opening.merged_eq rfl, closing.merged_eq rfl]
  | .unary op hOp operand => by
      simp only [ExprPhrase.merged, ExprPhrase.tokens, List.map_cons, operand.tokens_merged,
        Token.merged_eq (isRelational_of_isUnary hOp)]
  | .binary left op _ right => by
      simp only [ExprPhrase.merged, ExprPhrase.tokens, List.map_cons, List.map_append,
        left.tokens_merged, right.tokens_merged]
  | .callEmpty callee opening closing => by
      simp only [ExprPhrase.merged, ExprPhrase.tokens, List.map_cons, List.map_append, List.map_nil,
        callee.tokens_merged, opening.merged_eq rfl, closing.merged_eq rfl]
  | .call callee opening args closing => by
      simp only [ExprPhrase.merged, ExprPhrase.tokens, List.map_cons, List.map_append, List.map_nil,
        callee.tokens_merged, args.tokens_merged, opening.merged_eq rfl, closing.merged_eq rfl]
  | .select left dot field => by
      simp only [ExprPhrase.merged, ExprPhrase.tokens, List.map_cons, List.map_append, List.map_nil,
        left.tokens_merged, dot.merged_eq rfl, field.merged_eq rfl]
  | .index left opening position closing => by
      simp only [ExprPhrase.merged, ExprPhrase.tokens, List.map_cons, List.map_append, List.map_nil,
        left.tokens_merged, position.tokens_merged, opening.merged_eq rfl, closing.merged_eq rfl]

theorem ExprsPhrase.tokens_merged :
    (phrase : ExprsPhrase) → phrase.merged.tokens = phrase.tokens.map Token.merged
  | .last e => e.tokens_merged
  | .more e comma rest => by
      simp only [ExprsPhrase.merged, ExprsPhrase.tokens, List.map_cons, List.map_append,
        e.tokens_merged, rest.tokens_merged, comma.merged_eq rfl]

end

mutual

/-- Merging changes nothing in a tree but tokens. -/
theorem ExprPhrase.erase_merged :
    (phrase : ExprPhrase) → phrase.merged.tree.erase = phrase.tree.erase
  | .atom _ _ _ => rfl
  | .group _ inner _ => inner.erase_merged
  | .unary _ _ operand => by
      simp only [ExprPhrase.merged, ExprPhrase.tree, Expr.erase, operand.erase_merged]
  | .binary left op _ right => by
      simp only [ExprPhrase.merged, ExprPhrase.tree, Expr.erase, left.erase_merged,
        right.erase_merged, Token.merged]
  | .callEmpty callee _ _ => by
      simp only [ExprPhrase.merged, ExprPhrase.tree, Expr.erase, callee.erase_merged]
  | .call callee _ args _ => by
      simp only [ExprPhrase.merged, ExprPhrase.tree, Expr.erase, callee.erase_merged,
        args.erase_merged]
  | .select left _ _ => by
      simp only [ExprPhrase.merged, ExprPhrase.tree, Expr.erase, left.erase_merged]
  | .index left _ position _ => by
      simp only [ExprPhrase.merged, ExprPhrase.tree, Expr.erase, left.erase_merged,
        position.erase_merged]

theorem ExprsPhrase.erase_merged :
    (phrase : ExprsPhrase) → Expr.eraseAll phrase.merged.trees = Expr.eraseAll phrase.trees
  | .last e => by
      simp only [ExprsPhrase.merged, ExprsPhrase.trees, Expr.eraseAll, e.erase_merged]
  | .more e _ rest => by
      simp only [ExprsPhrase.merged, ExprsPhrase.trees, Expr.eraseAll, e.erase_merged,
        rest.erase_merged]

end

theorem ExprPhrase.goLevel_merged (phrase : ExprPhrase) :
    phrase.merged.level TokenKind.goLevel = phrase.level TokenKind.goLevel := by
  cases phrase with
  | binary left op hOp right => exact op.kind.goLevel_merged
  | _ => rfl

/-- Every phrase binds above the lowest level. -/
theorem ExprPhrase.lowest_lt_level (phrase : ExprPhrase) :
    Precedence.lowest.level < phrase.level TokenKind.level := by
  cases phrase with
  | binary left op hOp right => exact TokenKind.lowest_lt_level_of_isBinary hOp
  | _ => simp [ExprPhrase.level, Precedence.level]

section Merged

variable {kind : TokenKind} (hBinary : kind.isBinary = true) (phrase : ExprPhrase)

include hBinary

/-- The level of a merged operator in the source is that of the operator in Go. -/
theorem goLevel_eq_merged : kind.goLevel = goLevelOf kind.merged.level := by
  rw [← TokenKind.goLevel_eq (TokenKind.isBinary_merged hBinary), TokenKind.goLevel_merged]

/-- What binds as tightly in Go does so in the source once it is merged. -/
theorem le_level_merged (hLe : kind.goLevel ≤ phrase.level TokenKind.goLevel) :
    kind.merged.level ≤ phrase.merged.level TokenKind.level := by
  rw [goLevel_eq_merged hBinary, ← phrase.goLevel_merged, phrase.merged.goLevel_eq] at hLe
  refine Nat.not_lt.mp fun hLt => Nat.not_lt.mpr hLe ?_
  exact goLevelOf_strict hLt (Nat.le_of_lt phrase.merged.lowest_lt_level)
    (Or.inr kind.level_merged_ne)

/-- What binds more tightly in Go does so in the source once it is merged. -/
theorem lt_level_merged (hLt : kind.goLevel < phrase.level TokenKind.goLevel) :
    kind.merged.level < phrase.merged.level TokenKind.level := by
  rw [goLevel_eq_merged hBinary, ← phrase.goLevel_merged, phrase.merged.goLevel_eq] at hLt
  exact Nat.not_le.mp fun hLe => Nat.not_lt.mpr (goLevelOf_mono hLe) hLt

end Merged

/-- A phrase that is no binary one keeps its level. -/
theorem ExprPhrase.le_level_merged_of_unary (phrase : ExprPhrase) {level : Nat}
    (hUnary : Precedence.unary.level ≤ level) (hLe : level ≤ phrase.level TokenKind.goLevel) :
    level ≤ phrase.merged.level TokenKind.level := by
  cases phrase with
  | binary left op hOp right =>
      have hLow : op.kind.goLevel < Precedence.unary.level := by cases op.kind <;> decide
      exact absurd (Nat.le_trans hUnary hLe) (Nat.not_le.mpr hLow)
  | _ => exact hLe

mutual

/-- A phrase that nests by the levels of Go nests by those of the parser once it is merged. -/
theorem ExprPhrase.levelled_merged : (phrase : ExprPhrase) →
    phrase.Levelled TokenKind.goLevel → phrase.merged.Levelled TokenKind.level
  | .atom _ _ _, _ => trivial
  | .group _ inner _, hLevelled => inner.levelled_merged hLevelled
  | .unary _ _ operand, hLevelled =>
      ⟨operand.le_level_merged_of_unary (Nat.le_refl _) hLevelled.1,
        operand.levelled_merged hLevelled.2⟩
  | .binary left _ hOp right, hLevelled =>
      ⟨le_level_merged hOp left hLevelled.1, lt_level_merged hOp right hLevelled.2.1,
        left.levelled_merged hLevelled.2.2.1, right.levelled_merged hLevelled.2.2.2⟩
  | .callEmpty callee _ _, hLevelled =>
      ⟨callee.le_level_merged_of_unary (by decide) hLevelled.1, callee.levelled_merged hLevelled.2⟩
  | .call callee _ args _, hLevelled =>
      ⟨callee.le_level_merged_of_unary (by decide) hLevelled.1,
        callee.levelled_merged hLevelled.2.1, args.levelled_merged hLevelled.2.2⟩
  | .select left _ _, hLevelled =>
      ⟨left.le_level_merged_of_unary (by decide) hLevelled.1, left.levelled_merged hLevelled.2⟩
  | .index left _ position _, hLevelled =>
      ⟨left.le_level_merged_of_unary (by decide) hLevelled.1,
        left.levelled_merged hLevelled.2.1, position.levelled_merged hLevelled.2.2⟩

theorem ExprsPhrase.levelled_merged : (phrase : ExprsPhrase) →
    phrase.Levelled TokenKind.goLevel → phrase.merged.Levelled TokenKind.level
  | .last e, hLevelled => e.levelled_merged hLevelled
  | .more e _ rest, hLevelled => ⟨e.levelled_merged hLevelled.1, rest.levelled_merged hLevelled.2⟩

end

/-- Phrases of the same tokens that nest by the levels of the parser have the same tree. -/
theorem tree_eq_of_levelled {a b : ExprPhrase} (hTokens : a.tokens = b.tokens)
    (hA : a.Levelled TokenKind.level) (hB : b.Levelled TokenKind.level) : a.tree = b.tree := by
  let start : Parse.State := ⟨⟨a.tokens, Position.start⟩, [], []⟩
  obtain ⟨last, hRun⟩ := Parse.readExpr_run start [] a hA (by decide)
  obtain ⟨last', hRun'⟩ := Parse.readExpr_run start [] b hB (by decide)
  rw [← hTokens, hRun] at hRun'
  exact (EStateM.Result.ok.inj hRun').1

/-- Phrases of the same tokens that nest by the levels of Go have the same tree. -/
theorem erase_tree_eq_of_goLevelled {a b : ExprPhrase} (hTokens : a.tokens = b.tokens)
    (hA : a.Levelled TokenKind.goLevel) (hB : b.Levelled TokenKind.goLevel) :
    a.tree.erase = b.tree.erase := by
  have hMerged : a.merged.tokens = b.merged.tokens := by
    rw [a.tokens_merged, b.tokens_merged, hTokens]
  rw [← a.erase_merged, ← b.erase_merged,
    tree_eq_of_levelled hMerged (a.levelled_merged hA) (b.levelled_merged hB)]

end TryGo
