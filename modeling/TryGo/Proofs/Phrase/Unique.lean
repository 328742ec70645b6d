import Mathlib.Data.List.Infix
import TryGo.Proofs.Phrase.Expr
import TryGo.Proofs.Tree.Erase

/-! How a phrase nests is determined by its tree and the kinds of its tokens. Brackets show where a
group or the arguments of a call begin, and the tree tells how many tokens an operand has apart
from parentheses. -/
namespace TryGo

namespace TokenKind

def opens (kind : TokenKind) : Bool := kind == .lparen || kind == .lbracket

def closes (kind : TokenKind) : Bool := kind == .rparen || kind == .rbracket

def isSolid (kind : TokenKind) : Bool := kind != .lparen && kind != .rparen

end TokenKind

/-! ### Brackets -/

/-- How many brackets are open behind some tokens. In front of them some may be open already, and a
closing bracket needs an open one. -/
def openBehind (count : Nat) : List TokenKind → Option Nat
  | [] => some count
  | kind :: rest =>
      if kind.opens then openBehind (count + 1) rest
      else if kind.closes then
        if count = 0 then none else openBehind (count - 1) rest
      else openBehind count rest

/-- Whether the brackets of some tokens are closed among these tokens. -/
def Nested (kinds : List TokenKind) : Prop := ∀ count, openBehind count kinds = some count

section Brackets

variable {count middle : Nat} {kind opening closing : TokenKind}
  {front back inner begun kinds : List TokenKind}

/-- Brackets are counted through texts in a row. -/
theorem openBehind_append (count : Nat) (front back : List TokenKind) :
    openBehind count (front ++ back) =
      (openBehind count front).bind fun middle => openBehind middle back := by
  induction front generalizing count with
  | nil => rfl
  | cons kind rest ih =>
      rw [List.cons_append, openBehind, openBehind]
      split
      · exact ih _
      · split
        · split
          · rfl
          · exact ih _
        · exact ih _

/-- Brackets that were open from the start make no difference. -/
theorem openBehind_add (more : Nat) (hOpen : openBehind count kinds = some middle) :
    openBehind (count + more) kinds = some (middle + more) := by
  induction kinds generalizing count with
  | nil =>
      obtain rfl := Option.some.inj hOpen
      rfl
  | cons kind rest ih =>
      rw [openBehind] at hOpen ⊢
      split at hOpen
      next hOpens =>
        rw [if_pos hOpens, Nat.add_right_comm]
        exact ih hOpen
      next hOpens =>
        rw [if_neg hOpens]
        split at hOpen
        next hCloses =>
          split at hOpen
          next => cases hOpen
          next hSome =>
            have hCount : count + more - 1 = count - 1 + more := by omega
            rw [if_pos hCloses, if_neg (by omega), hCount]
            exact ih hOpen
        next hCloses =>
          rw [if_neg hCloses]
          exact ih hOpen

namespace Nested

theorem nil : Nested [] := fun _ => rfl

/-- Nested kinds in a row are nested. -/
theorem append (hFront : Nested front) (hBack : Nested back) : Nested (front ++ back) := by
  intro count
  rw [openBehind_append, hFront count]
  exact hBack count

/-- A kind that is no bracket may stand in front. -/
theorem cons (hOpens : kind.opens = false) (hCloses : kind.closes = false) (hRest : Nested kinds) :
    Nested (kind :: kinds) := by
  intro count
  simp only [openBehind, hOpens, hCloses, Bool.false_eq_true, if_false]
  exact hRest count

/-- Brackets around nested kinds are nested. -/
theorem wrap (hOpens : opening.opens = true) (hCloses : closing.closes = true)
    (hOther : closing.opens = false) (hInner : Nested inner) :
    Nested (opening :: (inner ++ [closing])) := by
  intro count
  rw [openBehind, if_pos hOpens, openBehind_append, hInner (count + 1)]
  simp [openBehind, hOther, hCloses]

/-- An open bracket is not closed by a first part of nested tokens. -/
theorem openBehind_prefix_ne (hInner : Nested inner) (hPrefix : begun <+: inner) :
    openBehind 1 begun ≠ some 0 := by
  obtain ⟨rest, rfl⟩ := hPrefix
  have hWhole := hInner 0
  rw [openBehind_append] at hWhole
  obtain ⟨middle, hBegun, -⟩ := Option.bind_eq_some_iff.mp hWhole
  have hShifted := openBehind_add 1 hBegun
  rw [Nat.zero_add] at hShifted
  rw [hShifted]
  exact fun hNone => absurd (Option.some.inj hNone) (Nat.succ_ne_zero middle)

/-- Nested tokens do not end within nested tokens behind an opening bracket. -/
theorem not_append (hFront : Nested front) (hOpens : opening.opens = true) (hInner : Nested inner)
    (hPrefix : begun <+: inner) : ¬Nested (front ++ opening :: begun) := by
  intro hWhole
  have hZero := hWhole 0
  rw [openBehind_append, hFront 0, Option.bind_some, openBehind, if_pos hOpens] at hZero
  exact hInner.openBehind_prefix_ne hPrefix hZero

end Nested

/-- What is followed within bracketed tokens starts what stands in the brackets. -/
theorem prefix_of_append_concat (hEq : begun ++ back = inner ++ [closing]) (hBack : back ≠ []) :
    begun <+: inner := by
  obtain hNil | ⟨more, last, rfl⟩ := List.eq_nil_or_concat' back
  · exact absurd hNil hBack
  · rw [← List.append_assoc] at hEq
    exact ⟨more, List.append_inj_left' hEq rfl⟩

namespace Nested

variable {opening' closing' : TokenKind} {front' inner' more : List TokenKind}

/-- A bracket that opens is closed within the same part. -/
theorem eq_nil_of_append (hFront : Nested front) (hInner : Nested inner)
    (hOpens : opening.opens = true) (hWhole : Nested (front ++ more)) (hBack : back ≠ [])
    (hEq : opening :: (inner ++ [closing]) = more ++ back) : more = [] := by
  cases more with
  | nil => rfl
  | cons first begun =>
      obtain ⟨rfl, hRest⟩ := List.cons.inj hEq
      exact absurd hWhole
        (hFront.not_append hOpens hInner (prefix_of_append_concat hRest.symm hBack))

/-- The last brackets of some tokens are determined by these tokens. -/
theorem wrap_inj (hFront : Nested front) (hFront' : Nested front') (hInner : Nested inner)
    (hInner' : Nested inner') (hOpens : opening.opens = true) (hOpens' : opening'.opens = true)
    (hEq : front ++ opening :: (inner ++ [closing]) =
      front' ++ opening' :: (inner' ++ [closing'])) : front = front' ∧ inner = inner' := by
  have hFronts : front = front' := by
    rcases List.append_eq_append_iff.mp hEq with ⟨more, rfl, hMore⟩ | ⟨more, rfl, hMore⟩
    · obtain rfl := hFront.eq_nil_of_append hInner hOpens hFront' (List.cons_ne_nil _ _) hMore
      exact (List.append_nil front).symm
    · obtain rfl := hFront'.eq_nil_of_append hInner' hOpens' hFront (List.cons_ne_nil _ _) hMore
      exact List.append_nil front'
  subst hFronts
  exact ⟨rfl, List.append_inj_left' (List.cons.inj (List.append_cancel_left hEq)).2 rfl⟩

/-- Nested tokens in front of others are not what a bracket that closes at the end of them
begins with. -/
theorem append_ne_wrap (hFront : Nested front) (hSome : front ≠ []) (hBack : back ≠ [])
    (hInner : Nested inner) (hOpens : opening.opens = true) :
    front ++ back ≠ opening :: (inner ++ [closing]) := fun hEq =>
  hSome (nil.eq_nil_of_append hInner hOpens hFront hBack hEq.symm)

end Nested

end Brackets

/-! ### The kinds of the tokens of a phrase -/

mutual

def ExprPhrase.kinds : ExprPhrase → List TokenKind
  | .atom token _ _ => [token.kind]
  | .group _ inner _ => .lparen :: (inner.kinds ++ [.rparen])
  | .unary op _ operand => op.kind :: operand.kinds
  | .binary left op _ right => left.kinds ++ op.kind :: right.kinds
  | .callEmpty callee _ _ => callee.kinds ++ .lparen :: ([] ++ [.rparen])
  | .call callee _ args _ => callee.kinds ++ .lparen :: (args.kinds ++ [.rparen])
  | .select left _ _ => left.kinds ++ [.dot, .ident]
  | .index left _ position _ => left.kinds ++ .lbracket :: (position.kinds ++ [.rbracket])

def ExprsPhrase.kinds : ExprsPhrase → List TokenKind
  | .last e => e.kinds
  | .more e _ rest => e.kinds ++ .comma :: rest.kinds

end

mutual

theorem ExprPhrase.map_kind_tokens :
    (phrase : ExprPhrase) → phrase.tokens.map Token.kind = phrase.kinds
  | .atom _ _ _ => rfl
  | .group opening inner closing => by
      simp [ExprPhrase.tokens, ExprPhrase.kinds, inner.map_kind_tokens, opening.property,
        closing.property]
  | .unary _ _ operand => by
      simp [ExprPhrase.tokens, ExprPhrase.kinds, operand.map_kind_tokens]
  | .binary left _ _ right => by
      simp [ExprPhrase.tokens, ExprPhrase.kinds, left.map_kind_tokens, right.map_kind_tokens]
  | .callEmpty callee opening closing => by
      simp [ExprPhrase.tokens, ExprPhrase.kinds, callee.map_kind_tokens, opening.property,
        closing.property]
  | .call callee opening args closing => by
      simp [ExprPhrase.tokens, ExprPhrase.kinds, callee.map_kind_tokens, args.map_kind_tokens,
        opening.property, closing.property]
  | .select left dot field => by
      simp [ExprPhrase.tokens, ExprPhrase.kinds, left.map_kind_tokens, dot.property,
        field.property]
  | .index left opening position closing => by
      simp [ExprPhrase.tokens, ExprPhrase.kinds, left.map_kind_tokens, position.map_kind_tokens,
        opening.property, closing.property]

theorem ExprsPhrase.map_kind_tokens :
    (phrase : ExprsPhrase) → phrase.tokens.map Token.kind = phrase.kinds
  | .last e => e.map_kind_tokens
  | .more e comma rest => by
      simp [ExprsPhrase.tokens, ExprsPhrase.kinds, e.map_kind_tokens, rest.map_kind_tokens,
        comma.property]

end

theorem ExprPhrase.kinds_ne_nil (phrase : ExprPhrase) : phrase.kinds ≠ [] := by
  rw [← phrase.map_kind_tokens]
  exact mt List.map_eq_nil_iff.mp phrase.tokens_ne_nil

/-- No bracket is an operand or an operator. -/
theorem not_bracket {kind : TokenKind}
    (hKind : kind ∈ TokenKind.exprStarts ∧ kind ≠ .lparen ∨ kind.isUnary = true
      ∨ kind.isBinary = true) :
    kind.opens = false ∧ kind.closes = false ∧ kind.isSolid = true := by
  revert hKind
  cases kind <;> decide

theorem not_bracket_operand {token : Token} {value : Expr} (hValue : operand? token = some value) :
    token.kind.opens = false ∧ token.kind.closes = false ∧ token.kind.isSolid = true := by
  refine not_bracket (.inl ⟨kind_mem_exprStarts_of_operand hValue, fun hKind => ?_⟩)
  rw [operand?, hKind] at hValue
  cases hValue

mutual

/-- The brackets of an expression are nested. -/
theorem ExprPhrase.nested : (phrase : ExprPhrase) → Nested phrase.kinds
  | .atom _ _ hValue =>
      have hPlain := not_bracket_operand hValue
      .cons hPlain.1 hPlain.2.1 .nil
  | .group _ inner _ => .wrap rfl rfl rfl inner.nested
  | .unary _ hOp operand =>
      have hPlain := not_bracket (.inr (.inl hOp))
      .cons hPlain.1 hPlain.2.1 operand.nested
  | .binary left _ hOp right =>
      have hPlain := not_bracket (.inr (.inr hOp))
      left.nested.append (.cons hPlain.1 hPlain.2.1 right.nested)
  | .callEmpty callee _ _ => callee.nested.append (.wrap rfl rfl rfl .nil)
  | .call callee _ args _ => callee.nested.append (.wrap rfl rfl rfl args.nested)
  | .select left _ _ => left.nested.append (.cons rfl rfl (.cons rfl rfl .nil))
  | .index left _ position _ => left.nested.append (.wrap rfl rfl rfl position.nested)

theorem ExprsPhrase.nested : (phrase : ExprsPhrase) → Nested phrase.kinds
  | .last e => e.nested
  | .more e _ rest => e.nested.append (.cons rfl rfl rest.nested)

end

/-! ### The number of tokens of a tree -/

mutual

/-- The number of tokens of an expression, parentheses left out. -/
def Expr.width : Expr → Nat
  | .unary _ _ operand => operand.width + 1
  | .binary _ left _ right => left.width + (right.width + 1)
  | .call _ callee args => callee.width + (Expr.widths args - 1)
  | .select _ left _ => left.width + 2
  | .index _ left position => left.width + (position.width + 2)
  | _ => 1

/-- The number of tokens of some expressions with a comma behind each. -/
def Expr.widths : List Expr → Nat
  | [] => 0
  | e :: es => e.width + 1 + Expr.widths es

end

mutual

theorem Expr.width_erase : (e : Expr) → e.erase.width = e.width
  | .missing | .ident _ _ | .int _ _ | .float _ _ | .str _ _ _ | .char _ _ | .bool _ _ | .nil _
  | .foreign _ _ _ => rfl
  | .unary _ _ operand => by rw [Expr.erase, Expr.width, Expr.width, operand.width_erase]
  | .binary _ left _ right => by
      rw [Expr.erase, Expr.width, Expr.width, left.width_erase, right.width_erase]
  | .call _ callee args => by
      rw [Expr.erase, Expr.width, Expr.width, callee.width_erase, Expr.widths_eraseAll args]
  | .select _ left _ => by rw [Expr.erase, Expr.width, Expr.width, left.width_erase]
  | .index _ left position => by
      rw [Expr.erase, Expr.width, Expr.width, left.width_erase, position.width_erase]

theorem Expr.widths_eraseAll : (es : List Expr) → Expr.widths (Expr.eraseAll es) = Expr.widths es
  | [] => rfl
  | e :: es => by
      rw [Expr.eraseAll, Expr.widths, Expr.widths, e.width_erase, Expr.widths_eraseAll es]

end

/-- The width does not depend on tokens. -/
theorem Expr.width_eq_of_erase {a b : Expr} (hErased : a.erase = b.erase) : a.width = b.width := by
  rw [← a.width_erase, hErased, b.width_erase]

theorem width_operand {token : Token} {value : Expr} (hValue : operand? token = some value) :
    value.width = 1 := by
  unfold operand? at hValue
  split at hValue <;> simp only [Option.map_eq_some_iff, Option.some.injEq, reduceCtorEq] at hValue
  all_goals first
    | (subst hValue; rfl)
    | (obtain ⟨_, _, rfl⟩ := hValue; rfl)

mutual

/-- A phrase has as many tokens as its tree, parentheses left out. -/
theorem ExprPhrase.countP_kinds :
    (phrase : ExprPhrase) → phrase.kinds.countP TokenKind.isSolid = phrase.tree.width
  | .atom _ _ hValue => by
      rw [ExprPhrase.kinds, ExprPhrase.tree, width_operand hValue,
        List.countP_cons_of_pos (not_bracket_operand hValue).2.2]
      rfl
  | .group _ inner _ => by
      rw [ExprPhrase.kinds, ExprPhrase.tree, List.countP_cons_of_neg (by decide),
        List.countP_append, inner.countP_kinds]
      rfl
  | .unary _ hOp operand => by
      rw [ExprPhrase.kinds, ExprPhrase.tree, Expr.width,
        List.countP_cons_of_pos (not_bracket (.inr (.inl hOp))).2.2, operand.countP_kinds]
  | .binary left _ hOp right => by
      rw [ExprPhrase.kinds, ExprPhrase.tree, Expr.width, List.countP_append,
        List.countP_cons_of_pos (not_bracket (.inr (.inr hOp))).2.2, left.countP_kinds,
        right.countP_kinds]
  | .callEmpty callee _ _ => by
      rw [ExprPhrase.kinds, ExprPhrase.tree, Expr.width, List.countP_append, callee.countP_kinds]
      rfl
  | .call callee _ args _ => by
      rw [ExprPhrase.kinds, ExprPhrase.tree, Expr.width, List.countP_append, callee.countP_kinds,
        List.countP_cons_of_neg (by decide), List.countP_append, ← args.countP_kinds]
      rfl
  | .select left _ _ => by
      rw [ExprPhrase.kinds, ExprPhrase.tree, Expr.width, List.countP_append, left.countP_kinds]
      rfl
  | .index left _ position _ => by
      rw [ExprPhrase.kinds, ExprPhrase.tree, Expr.width, List.countP_append, left.countP_kinds,
        List.countP_cons_of_pos (by decide), List.countP_append, position.countP_kinds]
      rfl

theorem ExprsPhrase.countP_kinds :
    (phrase : ExprsPhrase) → phrase.kinds.countP TokenKind.isSolid + 1 = Expr.widths phrase.trees
  | .last e => by
      rw [ExprsPhrase.kinds, ExprsPhrase.trees, Expr.widths, e.countP_kinds]
      rfl
  | .more e _ rest => by
      rw [ExprsPhrase.kinds, ExprsPhrase.trees, Expr.widths, List.countP_append, e.countP_kinds,
        List.countP_cons_of_pos (by decide), ← rest.countP_kinds]
      omega

end

/-- Whether a phrase is neither an operand nor a group. -/
def ExprPhrase.isOperation : ExprPhrase → Bool
  | .atom _ _ _ | .group _ _ _ => false
  | _ => true

/-- What starts with a parenthesis that is closed at its end is a group. -/
theorem ExprPhrase.exists_group (phrase : ExprPhrase) {inner : List TokenKind}
    (hInner : Nested inner) (hKinds : phrase.kinds = .lparen :: (inner ++ [.rparen])) :
    ∃ opening body closing, phrase = .group opening body closing ∧ body.kinds = inner := by
  cases phrase with
  | atom token value hValue =>
      have hLength := congrArg List.length hKinds
      simp [ExprPhrase.kinds] at hLength
  | group opening body closing =>
      exact ⟨opening, body, closing, rfl, List.append_inj_left' (List.cons.inj hKinds).2 rfl⟩
  | unary op hOp operand =>
      have hKind : op.kind = .lparen := (List.cons.inj hKinds).1
      rw [hKind] at hOp
      cases hOp
  | binary left | callEmpty left | call left | select left | index left =>
      exact absurd hKinds
        (left.nested.append_ne_wrap left.kinds_ne_nil (List.cons_ne_nil _ _) hInner rfl)

/-- Whether a phrase is an operation shows in its kinds. -/
theorem ExprPhrase.isOperation_of_kinds {a b : ExprPhrase} (hKinds : a.kinds = b.kinds)
    (hOperation : a.isOperation = true) : b.isOperation = true := by
  cases b with
  | atom token value hValue =>
      have hLength := congrArg List.length hKinds
      cases a with
      | atom | group => cases hOperation
      | unary _ _ operand =>
          have hOperand := List.length_pos_iff.mpr operand.kinds_ne_nil
          simp only [ExprPhrase.kinds, List.length_cons, List.length_nil] at hLength
          omega
      | binary left | callEmpty left | call left | select left | index left =>
          have hLeft := List.length_pos_iff.mpr left.kinds_ne_nil
          simp only [ExprPhrase.kinds, List.length_append, List.length_cons,
            List.length_nil] at hLength
          omega
  | group opening inner closing =>
      obtain ⟨_, _, _, rfl, -⟩ := a.exists_group inner.nested hKinds
      cases hOperation
  | _ => rfl

/-- Two texts with the same number of tokens of a sort in front of one of them are the same up to
there. -/
theorem eq_of_countP_eq {α : Type} {p : α → Bool} {mark mark' : α} (hMark : p mark = true)
    (hMark' : p mark' = true) {front front' back back' : List α}
    (hCount : front.countP p = front'.countP p)
    (hEq : front ++ mark :: back = front' ++ mark' :: back') : front = front' := by
  induction front generalizing front' with
  | nil =>
      cases front' with
      | nil => rfl
      | cons x rest =>
          obtain rfl : mark = x := (List.cons.inj hEq).1
          rw [List.countP_cons_of_pos hMark] at hCount
          cases hCount
  | cons x front ih =>
      cases front' with
      | nil =>
          obtain rfl : x = mark' := (List.cons.inj hEq).1
          rw [List.countP_cons_of_pos hMark'] at hCount
          cases hCount
      | cons y rest =>
          obtain ⟨rfl, hRest⟩ := List.cons.inj hEq
          rw [List.countP_cons, List.countP_cons, Nat.add_right_cancel_iff] at hCount
          rw [ih hCount hRest]

/-- Operands with the same tree in front of the same sort of token have the same kinds. -/
theorem ExprPhrase.kinds_eq_of_erase {a b : ExprPhrase} {mark mark' : TokenKind}
    {back back' : List TokenKind} (hMark : mark.isSolid = true) (hMark' : mark'.isSolid = true)
    (hErased : a.tree.erase = b.tree.erase)
    (hKinds : a.kinds ++ mark :: back = b.kinds ++ mark' :: back') : a.kinds = b.kinds := by
  refine eq_of_countP_eq hMark hMark' ?_ hKinds
  rw [a.countP_kinds, b.countP_kinds, Expr.width_eq_of_erase hErased]

/-- Parts of two token lists whose kinds are the same are told apart from what follows. -/
theorem ExprPhrase.tokens_inj {a b : ExprPhrase} {back back' : List Token}
    (hKinds : a.kinds = b.kinds) (hTokens : a.tokens ++ back = b.tokens ++ back') :
    a.tokens = b.tokens ∧ back = back' := by
  refine List.append_inj hTokens ?_
  rw [← List.length_map Token.kind, a.map_kind_tokens, hKinds, ← b.map_kind_tokens,
    List.length_map]

/-- Lists of the same kinds that start alike end alike. -/
theorem ExprsPhrase.tokens_inj {a b : ExprsPhrase} {back back' : List Token}
    (hKinds : a.kinds = b.kinds) (hTokens : a.tokens ++ back = b.tokens ++ back') :
    a.tokens = b.tokens ∧ back = back' := by
  refine List.append_inj hTokens ?_
  rw [← List.length_map Token.kind, a.map_kind_tokens, hKinds, ← b.map_kind_tokens,
    List.length_map]

/-- Two lists of two marks are the same if the marks are. -/
theorem Mark.pair_inj {kind kind' : TokenKind} {first first' : Mark kind} {last last' : Mark kind'}
    (hTokens : [first.val, last.val] = [first'.val, last'.val]) :
    first = first' ∧ last = last' :=
  ⟨Subtype.ext (List.cons.inj hTokens).1,
    Subtype.ext (List.cons.inj (List.cons.inj hTokens).2).1⟩

section Alike

variable {table : TokenKind → Nat}

/-- Whether two phrases nest alike: they have the same level, one is levelled if the other is, and
they differ in nothing but their tokens. -/
structure ExprPhrase.Alike (table : TokenKind → Nat) (a b : ExprPhrase) : Prop where
  level : a.level table = b.level table
  levelled : a.Levelled table ↔ b.Levelled table
  same : a.tokens = b.tokens → a = b

structure ExprsPhrase.Alike (table : TokenKind → Nat) (a b : ExprsPhrase) : Prop where
  levelled : a.Levelled table ↔ b.Levelled table
  same : a.tokens = b.tokens → a = b

mutual

/-- Phrases with the same tree whose tokens have the same kinds nest alike. -/
theorem ExprPhrase.alike_of_kinds : (a b : ExprPhrase) → a.kinds = b.kinds →
    a.tree.erase = b.tree.erase → a.Alike table b
  | .atom token value hValue, b, hKinds, _ => by
      cases b with
      | atom token' value' hValue' =>
          refine ⟨rfl, Iff.rfl, fun hTokens => ?_⟩
          obtain rfl := (List.cons.inj hTokens).1
          obtain rfl := Option.some.inj (hValue.symm.trans hValue')
          rfl
      | group =>
          have hLength := congrArg List.length hKinds
          simp [ExprPhrase.kinds] at hLength
      | _ => cases ExprPhrase.isOperation_of_kinds hKinds.symm rfl
  | .group opening inner closing, b, hKinds, hErased => by
      obtain ⟨opening', body, closing', rfl, hBody⟩ := b.exists_group inner.nested hKinds.symm
      have hAlike := inner.alike_of_kinds body hBody.symm hErased
      refine ⟨rfl, hAlike.levelled, fun hTokens => ?_⟩
      obtain ⟨hOpening, hRest⟩ := List.cons.inj hTokens
      obtain ⟨hInner, hClosing⟩ := ExprPhrase.tokens_inj hBody.symm hRest
      rw [Subtype.ext hOpening, hAlike.same hInner, Subtype.ext (List.cons.inj hClosing).1]
  | .unary op hOp operand, b, hKinds, hErased => by
      cases b with
      | unary op' hOp' operand' =>
          obtain ⟨-, -, hOperand⟩ := Expr.unary.inj hErased
          have hAlike := operand.alike_of_kinds operand' (List.cons.inj hKinds).2 hOperand
          refine ⟨rfl, ?_, fun hTokens => ?_⟩
          · rw [ExprPhrase.Levelled, ExprPhrase.Levelled, hAlike.level, hAlike.levelled]
          · obtain ⟨rfl, hRest⟩ := List.cons.inj hTokens
            rw [hAlike.same hRest]
      | atom | group => cases ExprPhrase.isOperation_of_kinds hKinds rfl
      | _ => cases hErased
  | .binary left op hOp right, b, hKinds, hErased => by
      cases b with
      | binary left' op' hOp' right' =>
          obtain ⟨-, hLeft, -, hRight⟩ := Expr.binary.inj hErased
          have hLeftKinds := ExprPhrase.kinds_eq_of_erase (not_bracket (.inr (.inr hOp))).2.2
            (not_bracket (.inr (.inr hOp'))).2.2 hLeft hKinds
          rw [ExprPhrase.kinds, ExprPhrase.kinds, hLeftKinds] at hKinds
          obtain ⟨hOps, hRightKinds⟩ := List.cons.inj (List.append_cancel_left hKinds)
          have hLeftAlike := left.alike_of_kinds left' hLeftKinds hLeft
          have hRightAlike := right.alike_of_kinds right' hRightKinds hRight
          refine ⟨congrArg table hOps, ?_, fun hTokens => ?_⟩
          · rw [ExprPhrase.Levelled, ExprPhrase.Levelled, hOps, hLeftAlike.level,
              hLeftAlike.levelled, hRightAlike.level, hRightAlike.levelled]
          · obtain ⟨hFront, hRest⟩ := ExprPhrase.tokens_inj hLeftKinds hTokens
            obtain ⟨rfl, hBack⟩ := List.cons.inj hRest
            rw [hLeftAlike.same hFront, hRightAlike.same hBack]
      | atom | group => cases ExprPhrase.isOperation_of_kinds hKinds rfl
      | _ => cases hErased
  | .callEmpty callee opening closing, b, hKinds, hErased => by
      cases b with
      | callEmpty callee' opening' closing' =>
          obtain ⟨-, hCallee, -⟩ := Expr.call.inj hErased
          have hCalleeKinds := List.append_cancel_right hKinds
          have hAlike := callee.alike_of_kinds callee' hCalleeKinds hCallee
          refine ⟨rfl, ?_, fun hTokens => ?_⟩
          · rw [ExprPhrase.Levelled, ExprPhrase.Levelled, hAlike.level, hAlike.levelled]
          · obtain ⟨hFront, hRest⟩ := ExprPhrase.tokens_inj hCalleeKinds hTokens
            obtain ⟨rfl, rfl⟩ := Mark.pair_inj hRest
            rw [hAlike.same hFront]
      | call _ _ args =>
          obtain ⟨-, -, hArgs⟩ := Expr.call.inj hErased
          cases args <;> cases hArgs
      | atom | group => cases ExprPhrase.isOperation_of_kinds hKinds rfl
      | _ => cases hErased
  | .call callee opening args closing, b, hKinds, hErased => by
      cases b with
      | call callee' opening' args' closing' =>
          obtain ⟨-, hCallee, hArgs⟩ := Expr.call.inj hErased
          obtain ⟨hCalleeKinds, hArgsKinds⟩ := callee.nested.wrap_inj callee'.nested args.nested
            args'.nested rfl rfl hKinds
          have hAlike := callee.alike_of_kinds callee' hCalleeKinds hCallee
          have hArgsAlike := args.alike_of_kinds args' hArgsKinds hArgs
          refine ⟨rfl, ?_, fun hTokens => ?_⟩
          · rw [ExprPhrase.Levelled, ExprPhrase.Levelled, hAlike.level, hAlike.levelled,
              hArgsAlike.levelled]
          · obtain ⟨hFront, hRest⟩ := ExprPhrase.tokens_inj hCalleeKinds hTokens
            obtain ⟨hOpening, hRest⟩ := List.cons.inj hRest
            obtain ⟨hInner, hClosing⟩ := ExprsPhrase.tokens_inj hArgsKinds hRest
            rw [hAlike.same hFront, Subtype.ext hOpening, hArgsAlike.same hInner,
              Subtype.ext (List.cons.inj hClosing).1]
      | callEmpty =>
          obtain ⟨-, -, hArgs⟩ := Expr.call.inj hErased
          cases args <;> cases hArgs
      | atom | group => cases ExprPhrase.isOperation_of_kinds hKinds rfl
      | _ => cases hErased
  | .select left dot field, b, hKinds, hErased => by
      cases b with
      | select left' dot' field' =>
          obtain ⟨-, hLeft, -⟩ := Expr.select.inj hErased
          have hLeftKinds := List.append_cancel_right hKinds
          have hAlike := left.alike_of_kinds left' hLeftKinds hLeft
          refine ⟨rfl, ?_, fun hTokens => ?_⟩
          · rw [ExprPhrase.Levelled, ExprPhrase.Levelled, hAlike.level, hAlike.levelled]
          · obtain ⟨hFront, hRest⟩ := ExprPhrase.tokens_inj hLeftKinds hTokens
            obtain ⟨rfl, rfl⟩ := Mark.pair_inj hRest
            rw [hAlike.same hFront]
      | atom | group => cases ExprPhrase.isOperation_of_kinds hKinds rfl
      | _ => cases hErased
  | .index left opening position closing, b, hKinds, hErased => by
      cases b with
      | index left' opening' position' closing' =>
          obtain ⟨-, hLeft, hPosition⟩ := Expr.index.inj hErased
          obtain ⟨hLeftKinds, hPositionKinds⟩ := left.nested.wrap_inj left'.nested
            position.nested position'.nested rfl rfl hKinds
          have hLeftAlike := left.alike_of_kinds left' hLeftKinds hLeft
          have hPositionAlike := position.alike_of_kinds position' hPositionKinds hPosition
          refine ⟨rfl, ?_, fun hTokens => ?_⟩
          · rw [ExprPhrase.Levelled, ExprPhrase.Levelled, hLeftAlike.level, hLeftAlike.levelled,
              hPositionAlike.levelled]
          · obtain ⟨hFront, hRest⟩ := ExprPhrase.tokens_inj hLeftKinds hTokens
            obtain ⟨hOpening, hRest⟩ := List.cons.inj hRest
            obtain ⟨hInner, hClosing⟩ := ExprPhrase.tokens_inj hPositionKinds hRest
            rw [hLeftAlike.same hFront, Subtype.ext hOpening, hPositionAlike.same hInner,
              Subtype.ext (List.cons.inj hClosing).1]
      | atom | group => cases ExprPhrase.isOperation_of_kinds hKinds rfl
      | _ => cases hErased

/-- Lists of the same kinds and the same trees are alike. -/
theorem ExprsPhrase.alike_of_kinds : (a b : ExprsPhrase) → a.kinds = b.kinds →
    Expr.eraseAll a.trees = Expr.eraseAll b.trees → a.Alike table b
  | .last e, b, hKinds, hErased => by
      cases b with
      | last e' =>
          have hAlike := e.alike_of_kinds e' hKinds (List.cons.inj hErased).1
          exact ⟨hAlike.levelled, fun hTokens => by rw [hAlike.same hTokens]⟩
      | more _ _ rest =>
          obtain ⟨-, hRest⟩ := List.cons.inj hErased
          cases rest <;> cases hRest
  | .more e comma rest, b, hKinds, hErased => by
      cases b with
      | last =>
          obtain ⟨-, hRest⟩ := List.cons.inj hErased
          cases rest <;> cases hRest
      | more e' comma' rest' =>
          obtain ⟨hFirst, hRest⟩ := List.cons.inj hErased
          have hFirstKinds := ExprPhrase.kinds_eq_of_erase rfl rfl hFirst hKinds
          rw [ExprsPhrase.kinds, ExprsPhrase.kinds, hFirstKinds] at hKinds
          have hRestKinds := (List.cons.inj (List.append_cancel_left hKinds)).2
          have hFirstAlike := e.alike_of_kinds e' hFirstKinds hFirst
          have hRestAlike := rest.alike_of_kinds rest' hRestKinds hRest
          refine ⟨?_, fun hTokens => ?_⟩
          · rw [ExprsPhrase.Levelled, ExprsPhrase.Levelled, hFirstAlike.levelled,
              hRestAlike.levelled]
          · obtain ⟨hFront, hBack⟩ := ExprPhrase.tokens_inj hFirstKinds hTokens
            obtain ⟨hComma, hBack⟩ := List.cons.inj hBack
            rw [hFirstAlike.same hFront, Subtype.ext hComma, hRestAlike.same hBack]

end

end Alike

/-- A phrase is determined by its tokens and its tree. -/
theorem ExprPhrase.eq_of_tokens {a b : ExprPhrase} (hTokens : a.tokens = b.tokens)
    (hErased : a.tree.erase = b.tree.erase) : a = b := by
  have hKinds : a.kinds = b.kinds := by rw [← a.map_kind_tokens, hTokens, b.map_kind_tokens]
  have hAlike : a.Alike TokenKind.level b := a.alike_of_kinds b hKinds hErased
  exact hAlike.same hTokens

end TryGo
