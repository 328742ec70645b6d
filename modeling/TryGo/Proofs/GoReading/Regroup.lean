import TryGo.Proofs.GoReading.Phrase

/-! From the parser's grouping to Go's. Where an equality has a chain of order comparisons as its
right operand, Go takes the equality into the first operand of the chain. `regroup` does
this everywhere in a phrase and makes the reading that Go has of its tokens. Parentheses
keep their contents together, so the same is done with a tree as if it had none but
those that the levels of the parser call for. The two agree unless parentheses in the phrase
kept Go from taking an equality into a chain. -/
namespace TryGo

/-- An operand and an operator that stand in front of a phrase. -/
structure Front where
  left : ExprPhrase
  op : Token
  hOp : op.kind.isBinary = true

namespace Front

/-- A phrase with what stands in front of it, if anything does. -/
def attach : Option Front → ExprPhrase → ExprPhrase
  | none, phrase => phrase
  | some front, phrase => .binary front.left front.op front.hOp phrase

def tokens : Option Front → List Token
  | none => []
  | some front => front.left.tokens ++ [front.op]

theorem tokens_attach (front : Option Front) (phrase : ExprPhrase) :
    (attach front phrase).tokens = tokens front ++ phrase.tokens := by
  cases front with
  | none => rfl
  | some front => simp [attach, tokens, ExprPhrase.tokens]

end Front

mutual

/-- The phrase that Go sees in the tokens of a phrase with something in front of it. -/
def ExprPhrase.regroup (front : Option Front) : ExprPhrase → ExprPhrase
  | .binary left op hOp right =>
      if op.kind.isRelational then .binary (left.regroup front) op hOp (right.regroup none)
      else if op.kind.isEquality then
        Front.attach front (right.regroup (some ⟨left.regroup none, op, hOp⟩))
      else Front.attach front (.binary (left.regroup none) op hOp (right.regroup none))
  | .atom token value hValue => Front.attach front (.atom token value hValue)
  | .group opening inner closing => Front.attach front (.group opening (inner.regroup none) closing)
  | .unary op hOp operand => Front.attach front (.unary op hOp (operand.regroup none))
  | .callEmpty callee opening closing =>
      Front.attach front (.callEmpty (callee.regroup none) opening closing)
  | .call callee opening args closing =>
      Front.attach front (.call (callee.regroup none) opening args.regroup closing)
  | .select left dot field => Front.attach front (.select (left.regroup none) dot field)
  | .index left opening position closing =>
      Front.attach front (.index (left.regroup none) opening (position.regroup none) closing)

def ExprsPhrase.regroup : ExprsPhrase → ExprsPhrase
  | .last e => .last (e.regroup none)
  | .more e comma rest => .more (e.regroup none) comma rest.regroup

end

mutual

/-- Regrouping keeps the tokens in their order. -/
theorem ExprPhrase.tokens_regroup : (phrase : ExprPhrase) → (front : Option Front) →
    (phrase.regroup front).tokens = Front.tokens front ++ phrase.tokens
  | .binary left op hOp right, front => by
      rw [ExprPhrase.regroup]
      split
      · simp only [ExprPhrase.tokens, left.tokens_regroup, right.tokens_regroup, List.append_assoc]
        rfl
      split
      · simp only [Front.tokens_attach, ExprPhrase.tokens, right.tokens_regroup, Front.tokens,
          left.tokens_regroup, List.nil_append, List.append_assoc, List.singleton_append]
      · simp only [Front.tokens_attach, ExprPhrase.tokens, right.tokens_regroup, Front.tokens,
          left.tokens_regroup, List.nil_append]
  | .atom _ _ _, front => Front.tokens_attach front _
  | .group _ inner _, front => by
      simp only [ExprPhrase.regroup, Front.tokens_attach, ExprPhrase.tokens, inner.tokens_regroup,
        Front.tokens, List.nil_append]
  | .unary _ _ operand, front => by
      simp only [ExprPhrase.regroup, Front.tokens_attach, ExprPhrase.tokens, operand.tokens_regroup,
        Front.tokens, List.nil_append]
  | .callEmpty callee _ _, front => by
      simp only [ExprPhrase.regroup, Front.tokens_attach, ExprPhrase.tokens, callee.tokens_regroup,
        Front.tokens, List.nil_append]
  | .call callee _ args _, front => by
      simp only [ExprPhrase.regroup, Front.tokens_attach, ExprPhrase.tokens, callee.tokens_regroup,
        args.tokens_regroup, Front.tokens, List.nil_append]
  | .select left _ _, front => by
      simp only [ExprPhrase.regroup, Front.tokens_attach, ExprPhrase.tokens, left.tokens_regroup,
        Front.tokens, List.nil_append]
  | .index left _ position _, front => by
      simp only [ExprPhrase.regroup, Front.tokens_attach, ExprPhrase.tokens, left.tokens_regroup,
        position.tokens_regroup, Front.tokens, List.nil_append]

theorem ExprsPhrase.tokens_regroup :
    (phrase : ExprsPhrase) → phrase.regroup.tokens = phrase.tokens
  | .last e => e.tokens_regroup none
  | .more e _ rest => by
      simp only [ExprsPhrase.regroup, ExprsPhrase.tokens, e.tokens_regroup, rest.tokens_regroup,
        Front.tokens, List.nil_append]

end

/-! ### Regrouped phrases are readings -/

/-- Whether an operand and an equality may stand in front of what binds tighter. -/
structure Front.Ready (front : Front) : Prop where
  equality : front.op.kind.isEquality = true
  binds : front.op.kind.goLevel ≤ front.left.level TokenKind.goLevel
  levelled : front.left.Levelled TokenKind.goLevel

/-- Behind an equality a regrouped phrase is a comparison. -/
theorem ExprPhrase.goLevel_regroup_some (phrase : ExprPhrase) {front : Front}
    (hFront : front.op.kind.isEquality = true) :
    (phrase.regroup (some front)).level TokenKind.goLevel = 3 := by
  have hAttached (inner : ExprPhrase) :
      (Front.attach (some front) inner).level TokenKind.goLevel = 3 :=
    (TokenKind.level_of_isEquality hFront).2
  cases phrase with
  | binary left op hOp right =>
      rw [ExprPhrase.regroup]
      split
      next hRelational => exact (TokenKind.level_of_isRelational hRelational).2
      split
      · exact hAttached _
      · exact hAttached _
  | _ => exact hAttached _

/-- Regrouping keeps the level of a phrase in Go. -/
theorem ExprPhrase.goLevel_regroup (phrase : ExprPhrase) :
    (phrase.regroup none).level TokenKind.goLevel = phrase.level TokenKind.goLevel := by
  cases phrase with
  | binary left op hOp right =>
      rw [ExprPhrase.regroup]
      split
      · rfl
      split
      next hEquality =>
        exact (right.goLevel_regroup_some hEquality).trans
          (TokenKind.level_of_isEquality hEquality).2.symm
      · rfl
  | _ => rfl

theorem goLevel_le_of_level_le {kind : TokenKind} (hBinary : kind.isBinary = true)
    {phrase : ExprPhrase} (hLe : kind.level ≤ phrase.level TokenKind.level) :
    kind.goLevel ≤ (phrase.regroup none).level TokenKind.goLevel := by
  rw [phrase.goLevel_regroup, phrase.goLevel_eq, TokenKind.goLevel_eq hBinary]
  exact goLevelOf_mono hLe

theorem goLevel_lt_of_level_lt {kind : TokenKind} (hBinary : kind.isBinary = true)
    (hEquality : kind.isEquality = false) {phrase : ExprPhrase}
    (hLt : kind.level < phrase.level TokenKind.level) :
    kind.goLevel < (phrase.regroup none).level TokenKind.goLevel := by
  rw [phrase.goLevel_regroup, phrase.goLevel_eq, TokenKind.goLevel_eq hBinary]
  refine goLevelOf_strict hLt (Nat.le_of_lt (TokenKind.lowest_lt_level_of_isBinary hBinary))
    (Or.inl fun hLevel => ?_)
  rw [TokenKind.isEquality_of_level hBinary hLevel] at hEquality
  cases hEquality

/-- What binds tighter than a comparison may stand behind an equality. -/
theorem Front.levelled_attach {front : Option Front} {phrase : ExprPhrase}
    (hFront : ∀ f, front = some f → f.Ready ∧ 3 < phrase.level TokenKind.goLevel)
    (hPhrase : phrase.Levelled TokenKind.goLevel) :
    (Front.attach front phrase).Levelled TokenKind.goLevel := by
  cases front with
  | none => exact hPhrase
  | some f =>
      obtain ⟨hReady, hLevel⟩ := hFront f rfl
      refine ⟨hReady.binds, ?_, hReady.levelled, hPhrase⟩
      rw [(TokenKind.level_of_isEquality hReady.equality).2]
      exact hLevel

theorem ExprPhrase.le_goLevel_regroup (phrase : ExprPhrase) {level : Nat}
    (hUnary : Precedence.unary.level ≤ level) (hLe : level ≤ phrase.level TokenKind.level) :
    level ≤ (phrase.regroup none).level TokenKind.goLevel := by
  rw [phrase.goLevel_regroup]
  cases phrase with
  | binary left op hOp right =>
      exact absurd (Nat.le_trans hUnary hLe)
        (Nat.not_le.mpr (TokenKind.level_lt_unary_of_isBinary hOp))
  | _ => exact hLe

theorem unary_le_dot : Precedence.unary.level ≤ Precedence.dot.level := by decide

/-- What is no binary phrase binds tighter than a comparison. -/
theorem Front.levelled_attach_closed {front : Option Front} {phrase : ExprPhrase} {own : Nat}
    (hFront : ∀ f, front = some f → f.Ready ∧ Precedence.equals.level < own)
    (hPhrase : phrase.Levelled TokenKind.goLevel)
    (hLevel : Precedence.unary.level ≤ phrase.level TokenKind.goLevel) :
    (Front.attach front phrase).Levelled TokenKind.goLevel :=
  Front.levelled_attach
    (fun f hSome => ⟨(hFront f hSome).1, Nat.lt_of_lt_of_le (by decide) hLevel⟩) hPhrase

mutual

/-- A regrouped phrase nests by the levels of Go if the phrase nests by those of the parser. -/
theorem ExprPhrase.levelled_regroup : (phrase : ExprPhrase) → (front : Option Front) →
    phrase.Levelled TokenKind.level →
    (∀ f, front = some f → f.Ready ∧ Precedence.equals.level < phrase.level TokenKind.level) →
      (phrase.regroup front).Levelled TokenKind.goLevel
  | .binary left op hOp right, front, hLevelled, hFront => by
      obtain ⟨hLeftLevel, hRightLevel, hLeft, hRight⟩ := hLevelled
      have hRightGo := right.levelled_regroup none hRight forall_none
      rw [ExprPhrase.regroup]
      split
      next hRelational =>
        have hOpLevel := TokenKind.level_of_isRelational hRelational
        have hNotEquality := TokenKind.isEquality_of_isRelational hRelational
        have hTighter : Precedence.equals.level < left.level TokenKind.level := by
          rw [hOpLevel.1] at hLeftLevel
          exact Nat.lt_of_lt_of_le (by decide) hLeftLevel
        refine ⟨?_, goLevel_lt_of_level_lt hOp hNotEquality hRightLevel, ?_, hRightGo⟩
        · cases front with
          | none => exact goLevel_le_of_level_le hOp hLeftLevel
          | some f =>
              have hLevel := left.goLevel_regroup_some (hFront f rfl).1.equality
              exact Nat.le_of_eq (hOpLevel.2.trans hLevel.symm)
        · exact left.levelled_regroup front hLeft fun f hSome => ⟨(hFront f hSome).1, hTighter⟩
      have hLeftGo := left.levelled_regroup none hLeft forall_none
      split
      next hEquality =>
        have hOpLevel := (TokenKind.level_of_isEquality hEquality).1
        have hReady : Front.Ready ⟨left.regroup none, op, hOp⟩ :=
          ⟨hEquality, goLevel_le_of_level_le hOp hLeftLevel, hLeftGo⟩
        have hJoined := right.levelled_regroup (some ⟨left.regroup none, op, hOp⟩) hRight
          fun f hSome => by
            cases hSome
            exact ⟨hReady, by rw [← hOpLevel]; exact hRightLevel⟩
        refine Front.levelled_attach (fun f hSome => ?_) hJoined
        have hAbove : Precedence.equals.level < op.kind.level := (hFront f hSome).2
        exact absurd hOpLevel (Nat.ne_of_gt hAbove)
      next hRelational hEquality =>
        have hNotEquality : op.kind.isEquality = false := Bool.eq_false_iff.mpr hEquality
        refine Front.levelled_attach (fun f hSome => ⟨(hFront f hSome).1, ?_⟩)
          ⟨goLevel_le_of_level_le hOp hLeftLevel,
            goLevel_lt_of_level_lt hOp hNotEquality hRightLevel, hLeftGo, hRightGo⟩
        have hAbove : Precedence.equals.level < op.kind.level := (hFront f hSome).2
        change goLevelOf Precedence.equals.level < op.kind.goLevel
        rw [TokenKind.goLevel_eq hOp]
        refine goLevelOf_strict hAbove (by decide) (Or.inr fun hLevel => ?_)
        exact hRelational (TokenKind.isRelational_of_level hOp hLevel)
  | .atom _ _ _, front, _, hFront => Front.levelled_attach_closed hFront trivial unary_le_dot
  | .group _ inner _, front, hLevelled, hFront =>
      Front.levelled_attach_closed hFront
        (inner.levelled_regroup none hLevelled forall_none) unary_le_dot
  | .unary _ _ operand, front, hLevelled, hFront =>
      Front.levelled_attach_closed hFront
        ⟨operand.le_goLevel_regroup (Nat.le_refl _) hLevelled.1,
          operand.levelled_regroup none hLevelled.2 forall_none⟩ (Nat.le_refl _)
  | .callEmpty callee _ _, front, hLevelled, hFront =>
      Front.levelled_attach_closed hFront
        ⟨callee.le_goLevel_regroup (by decide) hLevelled.1,
          callee.levelled_regroup none hLevelled.2 forall_none⟩ unary_le_dot
  | .call callee _ args _, front, hLevelled, hFront =>
      Front.levelled_attach_closed hFront
        ⟨callee.le_goLevel_regroup (by decide) hLevelled.1,
          callee.levelled_regroup none hLevelled.2.1 forall_none,
          args.levelled_regroup hLevelled.2.2⟩ unary_le_dot
  | .select left _ _, front, hLevelled, hFront =>
      Front.levelled_attach_closed hFront
        ⟨left.le_goLevel_regroup (by decide) hLevelled.1,
          left.levelled_regroup none hLevelled.2 forall_none⟩ unary_le_dot
  | .index left _ position _, front, hLevelled, hFront =>
      Front.levelled_attach_closed hFront
        ⟨left.le_goLevel_regroup (by decide) hLevelled.1,
          left.levelled_regroup none hLevelled.2.1 forall_none,
          position.levelled_regroup none hLevelled.2.2 forall_none⟩ unary_le_dot

theorem ExprsPhrase.levelled_regroup : (phrase : ExprsPhrase) →
    phrase.Levelled TokenKind.level → phrase.regroup.Levelled TokenKind.goLevel
  | .last e, hLevelled => e.levelled_regroup none hLevelled forall_none
  | .more e _ rest, hLevelled =>
      ⟨e.levelled_regroup none hLevelled.1 forall_none, rest.levelled_regroup hLevelled.2⟩

end

end TryGo
