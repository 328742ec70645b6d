import TryGo.Proofs.Phrase.Yield
import TryGo.Proofs.Progress.Forward

/-! Reading an expression is exact at every level. A run without a report takes the tokens of a
phrase and no others, its tree keeps them all in order, operators nest by their levels, and what
follows does not bind tighter than the run was asked for.

Expressions are read at the levels up to that of the unary operators, and the soundness of the
reader is stated for these. At the two levels above, of calls and of selectors, a run reads one
operand with the selectors behind it. -/
namespace TryGo.Parse

/-- What a quiet run at any level comes to. -/
def ReadsAt (s : State) (level : Nat) (tokens : List Token) (e : Expr) (s' : State) : Prop :=
  ∃ (phrase : ExprPhrase) (last : Token) (more : List Token),
    tokens = phrase.tokens ++ more ∧ s' = s.on (last :: more) ∧ e = phrase.tree
      ∧ phrase.Levelled TokenKind.level ∧ (nextKind more).level ≤ level

section Tight

variable {level : Nat} (hTight : Precedence.call.level ≤ level)
include hTight

/-- Above the level of calls only a selector continues an operand, and behind a unary operator
nothing does. -/
theorem operators_tight (fuel : Nat) (s : State) (left : ExprPhrase) (token : Token)
    (tokens : List Token) (e : Expr) (s' : State) (hLeft : left.Levelled TokenKind.level)
    (hNext : Precedence.call.level ≤ left.level TokenKind.level ∨ (nextKind tokens).level ≤ level)
    (hRun : operators fuel level left.tree (s.on (token :: tokens)) = .ok e s')
    (hQuiet : s'.reports = s.reports) : ReadsAt s level (left.tokens ++ tokens) e s' := by
  induction fuel generalizing s left token tokens with
  | zero => cases hRun
  | succ fuel ih =>
      by_cases hStop : (nextKind tokens).level ≤ level
      · rw [operators_stop s hStop] at hRun
        cases hRun
        exact ⟨left, token, tokens, rfl, rfl, rfl, hLeft, hStop⟩
      have hTighter : level < (nextKind tokens).level := Nat.not_le.mp hStop
      have hClosed := hNext.resolve_right hStop
      have hDot : nextKind tokens = .dot := by
        have hAbove : Precedence.call.level < (nextKind tokens).level :=
          Nat.lt_of_le_of_lt hTight hTighter
        revert hAbove
        cases nextKind tokens <;> decide
      obtain ⟨dot, rest, rfl⟩ := exists_mark_of_nextKind hDot (by decide)
      rw [operators_dot s dot.property (by rw [hDot] at hTighter; exact hTighter)] at hRun
      obtain ⟨named, middle, hAccept, hMiddle, hRest⟩ := bind_quiet hRun hQuiet
      obtain ⟨rfl, field, more, rfl, rfl⟩ := accept_quiet hAccept hMiddle (by decide)
      have hReads := ih s (.select left dot field) field.val more ⟨hClosed, hLeft⟩
        (.inl call_le_dot) hRest hQuiet
      simpa [ExprPhrase.tokens] using hReads

/-- Above the level of calls an expression is one operand with its selectors. -/
theorem expression_tight (fuel : Nat) (s : State) (tokens : List Token) (e : Expr) (s' : State)
    (hRun : expression fuel level (s.on tokens) = .ok e s') (hQuiet : s'.reports = s.reports) :
    ReadsAt s level tokens e s' := by
  cases fuel with
  | zero => cases hRun
  | succ fuel =>
  have hExpr : ExpressionSound fuel := (sound_aux fuel).1
  cases tokens with
  | nil => exact absurd hQuiet (expression_loud (s := s.on []) rfl rfl nofun hRun)
  | cons token rest =>
    by_cases hUnary : token.kind.isUnary = true
    · rw [expression_unary s hUnary] at hRun
      obtain ⟨operand, middle, hOperand, hMiddle, hRest⟩ := bind_quiet hRun hQuiet
      obtain ⟨inner, last, more, rfl, rfl, rfl, hInner, hBinds, hNext⟩ :=
        hExpr s _ rest operand middle isReadLevel_unary hOperand hMiddle
      have hAfter : (nextKind more).level ≤ level := hNext.trans ((by decide : _ ≤ _).trans hTight)
      exact operators_tight hTight fuel s (.unary token hUnary inner) last more e s'
        ⟨hBinds.le_level, hInner⟩ (.inr hAfter) hRest hQuiet
    by_cases hGroup : token.kind = .lparen
    · rw [expression_group s hGroup] at hRun
      obtain ⟨inner, middle, hInnerRun, hMiddle, hRest⟩ := bind_quiet hRun hQuiet
      obtain ⟨inner, last, more, rfl, rfl, rfl, hInner, -, -⟩ :=
        hExpr s _ rest inner middle isReadLevel_lowest hInnerRun hMiddle
      obtain ⟨closed, middle, hAccept, hMiddle, hRest⟩ := bind_quiet hRest hQuiet
      obtain ⟨rfl, closing, more, rfl, rfl⟩ := accept_quiet hAccept hMiddle (by decide)
      have hReads := operators_tight hTight fuel s (.group ⟨token, hGroup⟩ inner closing)
        closing.val more e s' hInner (.inl call_le_dot) hRest hQuiet
      simpa [ExprPhrase.tokens] using hReads
    · cases hOperand : operand? token with
      | none =>
          exact absurd hQuiet (expression_loud (s := s.on (token :: rest)) hOperand
            (by simpa using hUnary) hGroup hRun)
      | some value =>
          rw [expression_operand s hOperand] at hRun
          exact operators_tight hTight fuel s (.atom token value hOperand) token rest e s' trivial
            (.inl call_le_dot) hRun hQuiet

end Tight

/-- A quiet run reads a levelled phrase, whichever level it was started at. -/
theorem expression_readsAt (precedence : Precedence) {fuel : Nat} {s s' : State}
    {tokens : List Token} {e : Expr}
    (hRun : expression fuel precedence.level (s.on tokens) = .ok e s')
    (hQuiet : s'.reports = s.reports) : ReadsAt s precedence.level tokens e s' := by
  by_cases hTight : Precedence.call.level ≤ precedence.level
  · exact expression_tight hTight fuel s tokens e s' hRun hQuiet
  · have hLevel : IsReadLevel precedence.level :=
      ⟨lowest_le_level precedence, Nat.le_of_lt_succ (Nat.not_le.mp hTight)⟩
    obtain ⟨phrase, last, more, hTokens, hState, hTree, hLevelled, -, hNext⟩ :=
      (sound_aux fuel).1 s _ tokens e s' hLevel hRun hQuiet
    exact ⟨phrase, last, more, hTokens, hState, hTree, hLevelled, hNext⟩

end TryGo.Parse

namespace TryGo

open Parse

/-- Reading an expression is exact. Started at any level, a run that makes no report takes the
tokens of a phrase, of which the last one is current in the end. Without its grouping parentheses
they are the tokens of the tree in order, the operators nest by their levels, and the next token
does not bind tighter than the level. -/
theorem expression_exact (precedence : Precedence) (fuel : Nat) (s s' : State) (e : Expr)
    (hRun : expression fuel precedence.level s = .ok e s') (hQuiet : s'.reports = s.reports) :
    ∃ (phrase : ExprPhrase) (front : List Token) (last : Token) (more : List Token),
      phrase.tokens = front ++ [last] ∧ s.cursor.rest = phrase.tokens ++ more
        ∧ s' = s.on (last :: more) ∧ e = phrase.tree
        ∧ (ungroup phrase.tokens).map Token.sign = e.yield ∧ phrase.NestsByLevel
        ∧ (nextKind more).level ≤ precedence.level := by
  obtain ⟨phrase, last, more, hTokens, hState, hTree, hLevelled, hNext⟩ :
      ReadsAt s precedence.level s.cursor.rest e s' := expression_readsAt precedence hRun hQuiet
  -- The run only moved forward, so the current token is the last of the phrase.
  have hBuilt : Built (expression fuel precedence.level) := inferInstance
  have hLater := hBuilt.later s
  rw [hRun] at hLater
  obtain ⟨front, hFront⟩ : ∃ front, front ++ last :: more = phrase.tokens ++ more := by
    have hRest : s'.cursor.rest <:+ s.cursor.rest := hLater.rest
    rw [hState, State.rest_on, hTokens] at hRest
    exact hRest
  have hLast : phrase.tokens = front ++ [last] :=
    List.append_cancel_right (by rw [← hFront, List.append_assoc, List.singleton_append])
  refine ⟨phrase, front, last, more, hLast, hTokens, hState, hTree, ?_, ?_, hNext⟩
  · rw [phrase.ungroup_tokens, phrase.map_sign_bareTokens, hTree]
  · exact ExprPhrase.nestsByLevel hLevelled

/-- The start of a source with operators of several levels. At the level of sums the last operand
stays unread. -/
def signsStart : State := .init (.ofLexer (.ofString "-a * (b || c[1]).d(x, (y)) - z"))

theorem expression_exact_signs :
    ∃ e s', expression 100 Precedence.sum.level signsStart = .ok e s' ∧ s'.reports = []
      ∧ e.text = "((-a) * ((b || (c[1])).d)(x, y))"
      ∧ ∃ (phrase : ExprPhrase) (front : List Token) (last : Token) (more : List Token),
        phrase.tokens = front ++ [last] ∧ signsStart.cursor.rest = phrase.tokens ++ more
          ∧ s' = signsStart.on (last :: more) ∧ e = phrase.tree
          ∧ (ungroup phrase.tokens).map Token.sign = e.yield ∧ phrase.NestsByLevel
          ∧ (nextKind more).level ≤ Precedence.sum.level := by
  obtain ⟨e, s', hRun, hRead⟩ := exists_run_of_test (expression 100 Precedence.sum.level) signsStart
    (fun e s' => s'.reports.isEmpty && e.text == "((-a) * ((b || (c[1])).d)(x, y))")
    (by decide +kernel)
  obtain ⟨hReports, hText⟩ := Bool.and_eq_true_iff.mp hRead
  have hQuiet : s'.reports = [] := List.isEmpty_iff.mp hReports
  exact ⟨e, s', hRun, hQuiet, beq_iff_eq.mp hText,
    expression_exact .sum 100 signsStart s' e hRun hQuiet⟩

end TryGo
