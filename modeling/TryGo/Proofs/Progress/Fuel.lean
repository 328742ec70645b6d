import TryGo.Proofs.Progress.Rounds

/-! The fuel of the parser is always enough. Each reader gets fuel in proportion to the number
of tokens that are left. Whatever the tokens are, a reader that calls another one either has
taken a token, which frees more fuel than the calls in between use up, or calls one that needs
less. So a run without a value has been given up, or it could not word a report. -/
namespace TryGo.Parse

/-- Whether a run may end like this for what the source says. -/
def Halt.IsRegular : Halt → Prop
  | .abandoned => True
  | .unrenderable error => error = .tooManyDigits
  | .outOfFuel => False

/-- Whether a step that is started with at most `n` tokens left does not run out of fuel. -/
def EndsWithin {α : Type} (n : Nat) (step : ParseM α) : Prop :=
  ∀ s halt s', s.left ≤ n → step s = .error halt s' → halt.IsRegular

/-- A step that never runs out of fuel. -/
class Ends {α : Type} (step : ParseM α) : Prop where
  regular : ∀ s halt s', step s = .error halt s' → halt.IsRegular

section Rules

variable {α β : Type} {n : Nat} {step : ParseM α} {next : α → ParseM β}

/-- A reader that ends with any number of tokens ends with this one. -/
theorem Ends.within [hEnds : Ends step] : EndsWithin n step :=
  fun s halt s' _ hRun => hEnds.regular s halt s' hRun

/-- A reader ends if it does with each number of tokens. -/
theorem EndsWithin.ends (hWithin : ∀ n, EndsWithin n step) : Ends step :=
  ⟨fun s halt s' hRun => hWithin s.left s halt s' le_rfl hRun⟩

/-- A step that is put together without a loop never runs out of fuel. -/
instance (step : ParseM α) [hReads : Reads Halt.IsRegular step] : Ends step := by
  refine ⟨fun s halt s' hRun => ?_⟩
  cases halt with
  | abandoned => trivial
  | unrenderable | outOfFuel => exact hReads.allowed hRun nofun

instance : Ends takeTrailing := ⟨nofun⟩

instance (comments : List Stmt) : Ends (leaveTrailing comments) := ⟨nofun⟩

/-- The steps of a run are taken one by one, and each may count on what those before have taken. -/
theorem EndsWithin.of_steps (hStep : EndsWithin n step)
    (hNext : ∀ s a s', s.left ≤ n → step s = .ok a s' → ∃ m, s'.left ≤ m ∧ EndsWithin m (next a)) :
    EndsWithin n (step >>= next) := by
  intro s halt s' hLeft hRun
  rcases bind_error hRun with hStepRun | ⟨a, middle, hStepRun, hNextRun⟩
  · exact hStep s halt s' hLeft hStepRun
  · obtain ⟨m, hMiddle, hEnds⟩ := hNext s a middle hLeft hStepRun
    exact hEnds middle halt s' hMiddle hNextRun

/-- Two steps in a row end if both do, since the first takes no token back. -/
theorem EndsWithin.andThen [Built step] (hStep : EndsWithin n step)
    (hNext : ∀ a, EndsWithin n (next a)) : EndsWithin n (step >>= next) :=
  hStep.of_steps fun _ a _ hLeft hRun => ⟨n, (Built.left_le hRun).trans hLeft, hNext a⟩

/-- A step that always ends may stand in front. -/
theorem EndsWithin.after [Built step] [Ends step] (hNext : ∀ a, EndsWithin n (next a)) :
    EndsWithin n (step >>= next) := Ends.within.andThen hNext

instance [Ends step] [hNext : ∀ a, Ends (next a)] : Ends (step >>= next) :=
  EndsWithin.ends fun _ => Ends.within.of_steps fun _ a s' _ _ =>
    ⟨s'.left, le_rfl, (hNext a).within⟩

instance (condition : Prop) [Decidable condition] (x y : ParseM α) [Ends x] [Ends y] :
    Ends (if condition then x else y) := by
  split <;> infer_instance

/-- A choice ends if both of its arms do, each under its own condition. -/
theorem EndsWithin.ite {condition : Prop} [Decidable condition] {x y : ParseM α}
    (hThen : condition → EndsWithin n x) (hElse : ¬ condition → EndsWithin n y) :
    EndsWithin n (if condition then x else y) := by
  split
  next hYes => exact hThen hYes
  next hNo => exact hElse hNo

/-- An attempt ends if the step does. -/
theorem EndsWithin.attempt (hStep : EndsWithin n step) : EndsWithin n (attempt step) := by
  intro s halt s' hLeft hRun
  unfold Parse.attempt at hRun
  cases hStepRun : step s with
  | ok a middle =>
      rw [hStepRun] at hRun
      cases hRun
  | error stop middle =>
      have hStop := hStep s stop middle hLeft hStepRun
      rw [hStepRun] at hRun
      cases stop <;> cases hRun
      · exact hStop
      · exact hStop

instance [hStep : Ends step] : Ends (attempt step) :=
  EndsWithin.ends fun _ => hStep.within.attempt

/-- The current token counts among the tokens that are left, unless it is the end mark. -/
theorem EndsWithin.cur {next : Token → ParseM β}
    (hNext : ∀ token, (token.kind ≠ .eof → 1 ≤ n) → EndsWithin n (next token)) :
    EndsWithin n (cur >>= next) :=
  fun s halt s' hLeft hRun =>
    hNext s.cursor.cur (fun hKind => (left_of_cur hKind).trans hLeft) s halt s' hLeft hRun

/-- A token that is not the last one in sight leaves at least two, itself and the one that is read.
-/
theorem EndsWithin.peek {next : Token → ParseM β}
    (hNext : ∀ token, (token.kind ≠ .eof → 2 ≤ n) → EndsWithin n (next token)) :
    EndsWithin n (peek >>= next) :=
  fun s halt s' hLeft hRun =>
    hNext s.cursor.peek (fun hKind => (left_of_peek hKind).trans hLeft) s halt s' hLeft hRun

/-- A kind that is seen next is that of a token, unless it is the end mark. -/
theorem EndsWithin.seen {kind : TokenKind} {next : Bool → ParseM β} (hEof : kind ≠ .eof)
    (hFound : 2 ≤ n → EndsWithin n (next true)) (hMissing : EndsWithin n (next false)) :
    EndsWithin n (Parse.peekIs kind >>= next) := by
  intro s halt s' hLeft hRun
  rw [peekIs_bind] at hRun
  by_cases hKind : s.cursor.peek.kind = kind
  · rw [beq_iff_eq.mpr hKind] at hRun
    exact hFound ((left_of_peek (hKind ▸ hEof)).trans hLeft) s halt s' hLeft hRun
  · rw [beq_eq_false_iff_ne.mpr hKind] at hRun
    exact hMissing s halt s' hLeft hRun

/-- The same for a test of the token in sight. -/
theorem EndsWithin.peekIs {kind : TokenKind} {found missing : ParseM β} (hEof : kind ≠ .eof)
    (hFound : 2 ≤ n → EndsWithin n found) (hMissing : EndsWithin n missing) :
    EndsWithin n (peekIs kind >>= fun is => if is = true then found else missing) :=
  .seen hEof hFound hMissing

/-- A step forward leaves one token less. -/
theorem EndsWithin.advance {next : Unit → ParseM β} (hNext : EndsWithin (n - 1) (next ())) :
    EndsWithin n (advance >>= next) :=
  Ends.within.of_steps fun _ _ _ hLeft hRun =>
    ⟨n - 1, (left_advance hRun).trans_le (Nat.sub_le_sub_right hLeft 1), hNext⟩

/-- A token that was expected and found leaves one token less. -/
theorem EndsWithin.expect {kind : TokenKind} {next : Unit → ParseM β} (hEof : kind ≠ .eof)
    (hNext : 2 ≤ n → EndsWithin (n - 1) (next ())) : EndsWithin n (expect kind >>= next) :=
  Ends.within.of_steps fun _ _ _ hLeft hRun =>
    have hTaken := left_expect hEof hRun
    ⟨n - 1, hTaken.2.trans_le (Nat.sub_le_sub_right hLeft 1), hNext (hTaken.1.trans hLeft)⟩

/-- Fuel that is taken from the number of tokens left. -/
theorem EndsWithin.tokensLeft {next : Nat → ParseM β}
    (hNext : ∀ k ≤ n, EndsWithin k (next k)) : EndsWithin n (tokensLeft >>= next) :=
  fun s halt s' hLeft hRun => hNext s.left hLeft s halt s' le_rfl hRun

/-- A loop ends if its next round does, and the rounds after it do with a token less. -/
theorem RunsRounds.endsWithin {Part Result : Type} {loop : Nat → ParseM Result}
    {round : Nat → ParseM (Round Part Result)} {join : Part → Result → Result}
    (hLoop : RunsRounds loop round join) {fuel : Nat} (hRound : EndsWithin n (round fuel))
    (hRest : 1 ≤ n → EndsWithin (n - 1) (loop fuel)) : EndsWithin n (loop (fuel + 1)) := by
  rw [hLoop.unfolds]
  refine hRound.of_steps fun s result middle hLeft hRun => ?_
  cases result with
  | again part =>
      have hLess := hLoop.advances fuel s part middle hRun
      exact ⟨n - 1, by omega, (hRest (by omega)).of_steps fun _ _ s' _ _ =>
        ⟨s'.left, le_rfl, Ends.within⟩⟩
  | done result => exact ⟨middle.left, le_rfl, Ends.within⟩

end Rules

/-! ### Types -/

/-- The fuel that the four readers of types need. -/
structure TypeEnds (fuel : Nat) : Prop where
  goType : ∀ n, 4 * n + 2 ≤ fuel → EndsWithin n (goType fuel)
  funcType : ∀ n, 4 * n + 1 ≤ fuel → EndsWithin n (funcType fuel)
  typesUntilParen : ∀ n, 4 * n + 4 ≤ fuel → EndsWithin n (typesUntilParen fuel)
  typeList : ∀ n, 4 * n + 3 ≤ fuel → EndsWithin n (typeList fuel)

section Types

variable {fuel n : Nat} (h : TypeEnds fuel)
include h

/-- A type needs two rounds more than four for each token. -/
theorem goType_endsWithin (hFuel : 4 * n + 2 ≤ fuel + 1) : EndsWithin n (goType (fuel + 1)) := by
  refine .cur fun token hSome => ?_
  by_cases hEof : token.kind = .eof
  · rw [hEof]
    exact Ends.within
  have hLeft := hSome hEof
  have hElem : ∀ m < n, ∀ wrap : GoType → GoType,
      EndsWithin m (Parse.goType fuel >>= fun elem => pure (wrap elem)) :=
    fun m hLess wrap => (h.goType m (by omega)).andThen fun _ => Ends.within
  split
  · exact Ends.within
  · exact .advance (hElem _ (by omega) _)
  · exact .advance (hElem _ (by omega) _)
  · refine .peekIs (by decide) (fun _ => .advance (.advance (hElem _ (by omega) _))) ?_
    exact .advance (.after fun size => .expect (by decide) fun _ => .advance
      (hElem _ (by omega) _))
  · refine .expect (by decide) fun hMore => .advance ?_
    exact (h.goType _ (by omega)).andThen fun key => .expect (by decide) fun _ => .advance
      (hElem _ (by omega) _)
  · exact .advance (hElem _ (by omega) _)
  · exact .expect (by decide) fun _ => .advance (hElem _ (by omega) _)
  · exact Ends.within
  · exact Ends.within
  · exact h.funcType n (by omega)
  · exact Ends.within

theorem funcType_endsWithin (hFuel : 4 * n + 1 ≤ fuel + 1) :
    EndsWithin n (funcType (fuel + 1)) := by
  rw [funcType]
  refine .expect (by decide) fun hLeft => (h.typesUntilParen _ (by omega)).andThen fun params => ?_
  refine .peek fun next hSome => .ite (fun hParen => ?_) fun _ =>
    .ite (fun hStart => ?_) fun _ => ?_
  · exact .advance ((h.typesUntilParen _ (by omega)).andThen fun _ => Ends.within)
  · have hMore := hSome (by rintro hEof; rw [hEof] at hStart; exact absurd hStart (by decide))
    exact .advance ((h.goType _ (by omega)).andThen fun _ => Ends.within)
  · exact Ends.within

theorem typesUntilParen_endsWithin (hFuel : 4 * n + 4 ≤ fuel + 1) :
    EndsWithin n (typesUntilParen (fuel + 1)) := by
  rw [typesUntilParen]
  refine .peekIs (by decide) (fun _ => Ends.within) ?_
  exact (h.typeList n (by omega)).andThen fun _ => Ends.within

theorem typeList_endsWithin (hFuel : 4 * n + 3 ≤ fuel + 1) :
    EndsWithin n (typeList (fuel + 1)) := by
  refine runsRounds_typeList.endsWithin ?_ fun hLeft => h.typeList _ (by omega)
  exact .advance ((h.goType _ (by omega)).andThen fun _ => Ends.within)

omit h

/-- Four rounds for each token suffice for the readers of types. -/
theorem typeEnds (fuel : Nat) : TypeEnds fuel := by
  induction fuel with
  | zero => constructor <;> intro n hFuel <;> omega
  | succ fuel ih =>
      exact ⟨fun _ => goType_endsWithin ih, fun _ => funcType_endsWithin ih,
        fun _ => typesUntilParen_endsWithin ih, fun _ => typeList_endsWithin ih⟩

instance : Ends readType :=
  EndsWithin.ends fun _ => .tokensLeft fun k _ => (typeEnds _).goType k (by unfold typeFuel; omega)

instance : Ends readResults :=
  EndsWithin.ends fun _ => .tokensLeft fun k _ =>
    ((typeEnds _).typesUntilParen k (by unfold typeFuel; omega)).andThen fun _ => Ends.within

instance : Ends optionalType := by
  unfold optionalType
  infer_instance

instance : Ends readResult := by
  unfold readResult
  infer_instance

instance : Ends parameterType := by
  unfold parameterType
  infer_instance

end Types

/-! ### Expressions -/

/-- The fuel that the four readers of expressions need. An expression is asked for with at least
the lowest level, so that it ends at the end mark. -/
structure ExprEnds (fuel : Nat) : Prop where
  expression : ∀ n level, Precedence.lowest.level ≤ level → 4 * n + 2 ≤ fuel →
    EndsWithin n (expression fuel level)
  operators : ∀ n level left, Precedence.lowest.level ≤ level → 4 * n + 1 ≤ fuel →
    EndsWithin n (operators fuel level left)
  arguments : ∀ n, 4 * n + 4 ≤ fuel → EndsWithin n (arguments fuel)
  expressions : ∀ n, 4 * n + 3 ≤ fuel → EndsWithin n (expressions fuel)

section Expressions

variable {fuel n : Nat} (h : ExprEnds fuel)
include h

/-- An expression needs two rounds more than four for each token. -/
theorem expression_endsWithin {level : Nat} (hLevel : Precedence.lowest.level ≤ level)
    (hFuel : 4 * n + 2 ≤ fuel + 1) : EndsWithin n (expression (fuel + 1) level) := by
  refine .cur fun token hSome => ?_
  by_cases hEof : token.kind = .eof
  · rw [hEof]
    exact Ends.within
  have hLeft := hSome hEof
  have hOn : ∀ m ≤ n, ∀ left, EndsWithin m (operators fuel level left) :=
    fun m hLe left => h.operators m level left hLevel (by omega)
  split
  case h_2 | h_3 => exact .after fun value => hOn n le_rfl value
  case h_10 | h_11 | h_12 =>
    refine .advance ((h.expression _ _ (lowest_le_level _) (by omega)).andThen fun operand => ?_)
    exact hOn _ (by omega) _
  case h_13 =>
    refine .advance ((h.expression _ _ le_rfl (by omega)).andThen fun inner => ?_)
    exact .after fun closed => hOn _ (by omega) _
  case h_14 => exact Ends.within
  all_goals exact hOn n le_rfl _

/-- An operator and its right side need one round more than four for each token. -/
theorem operators_endsWithin {level : Nat} (left : Expr)
    (hLevel : Precedence.lowest.level ≤ level) (hFuel : 4 * n + 1 ≤ fuel + 1) :
    EndsWithin n (operators (fuel + 1) level left) := by
  refine .peek fun next hSome => .ite (fun _ => Ends.within) fun hTighter => .advance ?_
  have hLeft : 2 ≤ n := hSome (by rintro hEof; rw [hEof] at hTighter; exact hTighter hLevel)
  have hOn : ∀ m < n, ∀ left, EndsWithin m (operators fuel level left) :=
    fun m hLess left => h.operators m level left hLevel (by omega)
  split
  · exact (h.arguments _ (by omega)).andThen fun args => hOn _ (by omega) _
  · refine .advance ((h.expression _ _ le_rfl (by omega)).andThen fun position => ?_)
    exact .after fun closed => hOn _ (by omega) _
  · refine .after fun found => .ite (fun _ => .after fun field => ?_) fun _ => ?_
    · exact hOn _ (by omega) _
    · exact hOn _ (by omega) _
  · refine .advance ((h.expression _ _ (lowest_le_level _) (by omega)).andThen fun right => ?_)
    exact hOn _ (by omega) _

theorem arguments_endsWithin (hFuel : 4 * n + 4 ≤ fuel + 1) :
    EndsWithin n (arguments (fuel + 1)) := by
  refine .peekIs (by decide) (fun _ => Ends.within) (.advance ?_)
  refine (h.expressions _ (by omega)).attempt.andThen fun args => ?_
  split <;> exact Ends.within

theorem expressions_endsWithin (hFuel : 4 * n + 3 ≤ fuel + 1) :
    EndsWithin n (expressions (fuel + 1)) := by
  refine runsRounds_expressions.endsWithin ?_ fun hLeft => h.expressions _ (by omega)
  exact (h.expression n _ le_rfl (by omega)).andThen fun first => Ends.within

omit h

/-- Four rounds for each token suffice for the readers of expressions. -/
theorem exprEnds (fuel : Nat) : ExprEnds fuel := by
  induction fuel with
  | zero => constructor <;> intros <;> omega
  | succ fuel ih =>
      exact ⟨fun _ _ => expression_endsWithin ih, fun _ _ left => operators_endsWithin ih left,
        fun _ => arguments_endsWithin ih, fun _ => expressions_endsWithin ih⟩

instance : Ends readExpr :=
  EndsWithin.ends fun _ => .tokensLeft fun k _ =>
    (exprEnds _).expression k _ le_rfl (by unfold exprFuel; omega)

instance : Ends readExprs :=
  EndsWithin.ends fun _ => .tokensLeft fun k _ =>
    (exprEnds _).expressions k (by unfold exprFuel; omega)

instance : Ends requireExpr :=
  EndsWithin.ends fun _ => .after fun _ => Ends.within

end Expressions

/-! ### Statements without statements in them -/

section Simple

/-- A group of imports costs one round for each token. -/
theorem importPaths_endsWithin (fuel : Nat) : ∀ n < fuel, EndsWithin n (importPaths fuel) := by
  induction fuel with
  | zero => exact fun n hFuel => absurd hFuel (Nat.not_lt_zero n)
  | succ fuel ih =>
      refine fun n hFuel => runsRounds_importPaths.endsWithin ?_ fun hLeft => ih _ (by omega)
      unfold importRound
      exact Ends.within

instance : Ends importStmt :=
  EndsWithin.ends fun n => .after fun token => .peekIs (by decide)
    (fun _ => .after fun _ => .tokensLeft fun k _ =>
      (importPaths_endsWithin _ k (Nat.lt_succ_self k)).andThen fun _ => Ends.within)
    Ends.within

instance (kind : DeclKind) : Ends (declStmt kind) :=
  EndsWithin.ends fun _ => .after fun _ => .after fun _ => .after fun _ => .after fun _ => by
    cases kind <;> exact Ends.within

instance : Ends returnStmt := by
  unfold returnStmt
  infer_instance

instance : Ends throwStmt := by
  unfold throwStmt
  infer_instance

/-- An expression has no text only if it holds an integer that is too long. -/
theorem isRegular_render {e : Expr} {error : RenderError} (hRender : e.render = .error error) :
    (Halt.unrenderable error).IsRegular := by
  unfold Expr.render at hRender
  split at hRender
  · cases hRender
    rfl
  · cases hRender

theorem ends_requireIdents (es : List Expr) : Ends (requireIdents es) := by
  induction es with
  | nil =>
      rw [requireIdents]
      infer_instance
  | cons e es ih =>
      rw [requireIdents]
      split
      · exact ih
      · dsimp only
        split
        · infer_instance
        next error hRender =>
          refine ⟨?_⟩
          rintro s halt s' ⟨⟩
          exact isRegular_render hRender

instance (es : List Expr) : Ends (requireIdents es) := ends_requireIdents es

instance : Ends expressionStmt := by
  refine EndsWithin.ends fun n => .after fun token => .after fun exprs => .after fun next => ?_
  split
  · exact Ends.within
  · split
    · exact Ends.within
    · split <;> exact Ends.within

instance : Ends simpleStmt := by
  unfold simpleStmt
  infer_instance

/-- Parameters cost one round for each token. -/
theorem parameters_endsWithin (fuel : Nat) : ∀ n < fuel, EndsWithin n (parameters fuel) := by
  induction fuel with
  | zero => exact fun n hFuel => absurd hFuel (Nat.not_lt_zero n)
  | succ fuel ih =>
      refine fun n hFuel => runsRounds_parameters.endsWithin ?_ fun hLeft => ih _ (by omega)
      unfold parameterRound
      exact Ends.within

instance : Ends readParameters :=
  EndsWithin.ends fun n => .peekIs (by decide) (fun _ => Ends.within)
    (.tokensLeft fun k _ => parameters_endsWithin _ k (Nat.lt_succ_self k))

instance : Ends loopCondition := by
  unfold loopCondition
  infer_instance

end Simple

/-! ### Statements with statements in them -/

/-- The fuel that the mutually recursive readers of statements need. A block and a
loop start at a token, so one is left. -/
structure StmtEnds (fuel : Nat) : Prop where
  statement : ∀ n, 8 * n + 3 ≤ fuel → EndsWithin n (statement fuel)
  construct : ∀ n, 8 * n + 2 ≤ fuel → EndsWithin n (construct fuel)
  block : ∀ n, 1 ≤ n → 8 * n ≤ fuel → EndsWithin n (block fuel)
  blockItems : ∀ n, 8 * n + 7 ≤ fuel → EndsWithin n (blockItems fuel)
  ifStmt : ∀ n, 8 * n + 1 ≤ fuel → EndsWithin n (ifStmt fuel)
  forStmt : ∀ n, 1 ≤ n → 8 * n + 1 ≤ fuel → EndsWithin n (forStmt fuel)
  loopClauses : ∀ n token init, 8 * n + 1 ≤ fuel → EndsWithin n (loopClauses fuel token init)
  functionStmt : ∀ n, 8 * n + 1 ≤ fuel → EndsWithin n (functionStmt fuel)
  tryStmt : ∀ n, 8 * n + 1 ≤ fuel → EndsWithin n (tryStmt fuel)
  catchClauses : ∀ n, 8 * n + 1 ≤ fuel → EndsWithin n (catchClauses fuel)
  catchClause : ∀ n, 8 * n + 1 ≤ fuel → EndsWithin n (catchClause fuel)

theorem stmtEnds_zero : StmtEnds 0 := by
  constructor <;> intros <;> omega

section Statements

variable {fuel n : Nat} (h : StmtEnds fuel)
include h

/-- A statement needs three rounds more than eight for each token. -/
theorem statement_endsWithin (hFuel : 8 * n + 3 ≤ fuel + 1) :
    EndsWithin n (statement (fuel + 1)) := by
  rw [statement_succ]
  have hBuilt : Built (construct fuel) := (builtStmt fuel).construct
  refine .after fun token => .ite (fun _ => Ends.within) fun _ => ?_
  exact (h.construct n (by omega)).attempt.andThen fun result => Ends.within

theorem construct_endsWithin (hFuel : 8 * n + 2 ≤ fuel + 1) :
    EndsWithin n (construct (fuel + 1)) := by
  refine .cur fun token hSome => ?_
  split
  case h_5 => exact h.functionStmt n (by omega)
  case h_7 => exact h.ifStmt n (by omega)
  case h_8 hFor => exact h.forStmt n (hSome (by rw [hFor]; decide)) (by omega)
  case h_11 => exact h.tryStmt n (by omega)
  case h_15 hBrace => exact h.block n (hSome (by rw [hBrace]; decide)) (by omega)
  all_goals exact Ends.within

/-- The brace of a block pays for the rounds that its statements need. -/
theorem block_endsWithin (hLeft : 1 ≤ n) (hFuel : 8 * n ≤ fuel + 1) :
    EndsWithin n (block (fuel + 1)) := by
  rw [block]
  have hBuilt : Built (blockItems fuel) := (builtStmt fuel).blockItems
  exact .after fun token => .advance
    ((h.blockItems _ (by omega)).andThen fun _ => Ends.within)

/-- Each statement of a block takes a token at least, which pays for the next. -/
theorem blockItems_endsWithin (hFuel : 8 * n + 7 ≤ fuel + 1) :
    EndsWithin n (blockItems (fuel + 1)) := by
  refine runsRounds_blockItems.endsWithin ?_ fun hLeft => h.blockItems _ (by omega)
  refine .after fun token => .ite (fun _ => Ends.within) fun _ => .ite (fun _ => Ends.within) ?_
  refine fun _ => EndsWithin.andThen ?_ fun _ => Ends.within
  exact (h.statement n (by omega)).andThen fun stmt => Ends.within

/-- A block behind a brace that is expected or has been seen. -/
theorem block_then_endsWithin {α : Type} (hFuel : 8 * n ≤ fuel) (hLeft : 1 ≤ n)
    (result : Stmt → α) : EndsWithin n (block fuel >>= fun body => pure (result body)) := by
  have hBuilt : Built (block fuel) := (builtStmt fuel).block
  exact (h.block n hLeft hFuel).andThen fun _ => Ends.within

theorem ifStmt_endsWithin (hFuel : 8 * n + 1 ≤ fuel + 1) :
    EndsWithin n (ifStmt (fuel + 1)) := by
  rw [ifStmt]
  have hBuilt : Built (block fuel) := (builtStmt fuel).block
  have hBuiltIf : Built (ifStmt fuel) := (builtStmt fuel).ifStmt
  refine .after fun token => .advance (.after fun condition => .expect (by decide) fun hLeft => ?_)
  refine (h.block _ (by omega) (by omega)).andThen fun consequence => ?_
  refine .peekIs (by decide) (fun _ => .advance (.peekIs (by decide) (fun _ => .advance ?_) ?_))
    Ends.within
  · exact (h.ifStmt _ (by omega)).andThen fun _ => Ends.within
  · exact .expect (by decide) fun _ => block_then_endsWithin h (by omega) (by omega) _

/-- The semicolons pay for the rounds that the clauses of a loop need. -/
theorem loopClauses_endsWithin (token : Token) (init : Stmt) (hFuel : 8 * n + 1 ≤ fuel + 1) :
    EndsWithin n (loopClauses (fuel + 1) token init) := by
  rw [loopClauses_succ]
  refine .advance (.after fun condition => .advance (.cur fun next hSome => .ite (fun hBrace => ?_)
    fun _ => ?_))
  · have hLeft := hSome (by rintro hEof; rw [hEof] at hBrace; exact absurd hBrace (by decide))
    exact block_then_endsWithin h (by omega) (by omega) _
  · exact .after fun update => .expect (by decide) fun _ =>
      block_then_endsWithin h (by omega) (by omega) _

/-- Both forms of a loop with a first simple statement end alike. -/
theorem afterInit_endsWithin (keyword : Token) (init : Stmt) (hFuel : 8 * n + 1 ≤ fuel) :
    EndsWithin n (peekIs .lbrace >>= fun opened => afterInit fuel keyword init opened) := by
  have hClauses : EndsWithin n (expect .semicolon >>= fun _ => loopClauses fuel keyword init) :=
    .expect (by decide) fun _ => h.loopClauses _ keyword init (by omega)
  refine .seen (by decide) (fun hLeft => ?_) ?_
  · cases init with
    | expr token condition =>
        exact .advance (block_then_endsWithin h (by omega) (by omega) _)
    | _ => exact hClauses
  · rw [afterInit_false]
    exact hClauses

theorem forStmt_endsWithin (hLeft : 1 ≤ n) (hFuel : 8 * n + 1 ≤ fuel + 1) :
    EndsWithin n (forStmt (fuel + 1)) := by
  rw [forStmt_succ]
  refine .after fun token => .peekIs (by decide) (fun _ => .advance ?_) (.advance (.after
    fun next => .ite (fun _ => ?_) fun _ => .after fun init => ?_))
  · exact block_then_endsWithin h (by omega) (by omega) _
  · exact h.loopClauses _ token _ (by omega)
  · exact afterInit_endsWithin h token init (by omega)

theorem functionStmt_endsWithin (hFuel : 8 * n + 1 ≤ fuel + 1) :
    EndsWithin n (functionStmt (fuel + 1)) := by
  rw [functionStmt]
  refine .after fun token => .expect (by decide) fun _ => .after fun name => .expect (by decide)
    fun _ => .after fun params => .after fun result => .expect (by decide) fun _ => ?_
  exact block_then_endsWithin h (by omega) (by omega) _

theorem tryStmt_endsWithin (hFuel : 8 * n + 1 ≤ fuel + 1) :
    EndsWithin n (tryStmt (fuel + 1)) := by
  rw [tryStmt]
  have hBuilt : Built (block fuel) := (builtStmt fuel).block
  have hBuiltClauses : Built (catchClauses fuel) := (builtStmt fuel).catchClauses
  refine .after fun token => .expect (by decide) fun _ => ?_
  refine (h.block _ (by omega) (by omega)).andThen fun body => ?_
  refine (h.catchClauses _ (by omega)).andThen fun clauses => .peekIs (by decide) (fun _ => ?_)
    Ends.within
  exact .advance (.expect (by decide) fun _ => block_then_endsWithin h (by omega) (by omega) _)

/-- Each clause takes its keyword at least, which pays for the next. -/
theorem catchClauses_endsWithin (hFuel : 8 * n + 1 ≤ fuel + 1) :
    EndsWithin n (catchClauses (fuel + 1)) := by
  have hBuilt : Built (catchClause fuel) := (builtStmt fuel).catchClause
  refine runsRounds_catchClauses.endsWithin ?_ fun hLeft => h.catchClauses _ (by omega)
  refine .after fun comments => .peekIs (by decide) (fun _ => .advance ?_) Ends.within
  exact (h.catchClause _ (by omega)).attempt.andThen fun _ => Ends.within

theorem catchClause_endsWithin (hFuel : 8 * n + 1 ≤ fuel + 1) :
    EndsWithin n (catchClause (fuel + 1)) := by
  rw [catchClause]
  refine .after fun token => .peekIs (by decide) (fun _ => .advance (.expect (by decide) fun _ =>
    .after fun name => .peekIs (by decide) (fun _ => .advance ?_)
      (.advance (.after fun type => ?_)))) ?_
  · exact .expect (by decide) fun _ => block_then_endsWithin h (by omega) (by omega) _
  · exact .expect (by decide) fun _ => .expect (by decide) fun _ =>
      block_then_endsWithin h (by omega) (by omega) _
  · exact .expect (by decide) fun _ => block_then_endsWithin h (by omega) (by omega) _

omit h

/-- Eight rounds for each token suffice for the readers of statements. -/
theorem stmtEnds (fuel : Nat) : StmtEnds fuel := by
  induction fuel with
  | zero => exact stmtEnds_zero
  | succ fuel ih =>
      exact ⟨fun _ => statement_endsWithin ih, fun _ => construct_endsWithin ih,
        fun _ => block_endsWithin ih, fun _ => blockItems_endsWithin ih,
        fun _ => ifStmt_endsWithin ih, fun _ => forStmt_endsWithin ih,
        fun _ token init => loopClauses_endsWithin ih token init,
        fun _ => functionStmt_endsWithin ih, fun _ => tryStmt_endsWithin ih,
        fun _ => catchClauses_endsWithin ih, fun _ => catchClause_endsWithin ih⟩

/-- A program costs one round for each token, beside those of its statements. -/
theorem programItems_endsWithin (fuel : Nat) : ∀ n < fuel, EndsWithin n (programItems fuel) := by
  induction fuel with
  | zero => exact fun n hFuel => absurd hFuel (Nat.not_lt_zero n)
  | succ fuel ih =>
      refine fun n hFuel => runsRounds_programItems.endsWithin ?_ fun hLeft => ih _ (by omega)
      refine .after fun token => .ite (fun _ => Ends.within) fun _ => .tokensLeft fun k _ => ?_
      refine EndsWithin.andThen ?_ fun _ => Ends.within
      exact ((stmtEnds _).statement k (by unfold stmtFuel; omega)).andThen fun _ => Ends.within

instance : Ends readProgram :=
  EndsWithin.ends fun _ => .after fun _ => .tokensLeft fun k _ =>
    (programItems_endsWithin _ k (Nat.lt_succ_self k)).andThen fun _ => Ends.within

end Statements

end TryGo.Parse
