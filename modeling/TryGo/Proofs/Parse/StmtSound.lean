import TryGo.Proofs.Parse.Stmt

/-! Every quiet run of the statement parser reads a statement phrase that fits what follows
it. Nothing waits for its place when a statement starts, and what a statement leaves behind
is part of its phrase. -/
namespace TryGo.Parse

section Explanations

instance : Explains packageStmt := by
  unfold packageStmt
  infer_instance

instance : Explains importStmt := by
  unfold importStmt
  infer_instance

instance (kind : DeclKind) : Explains (declStmt kind) := by
  unfold declStmt
  cases kind <;> infer_instance

instance : Explains returnStmt := by
  unfold returnStmt
  infer_instance

instance : Explains throwStmt := by
  unfold throwStmt
  infer_instance

/-- What is needed of the mutually recursive functions that read statements. -/
structure ExplainsWith (fuel : Nat) : Prop where
  statement : Explains (statement fuel)
  construct : Explains (construct fuel)
  block : Explains (block fuel)
  blockItems : Explains (blockItems fuel)
  ifStmt : Explains (ifStmt fuel)
  forStmt : Explains (forStmt fuel)
  loopClauses : ∀ token init, Explains (loopClauses fuel token init)
  functionStmt : Explains (functionStmt fuel)
  tryStmt : Explains (tryStmt fuel)
  catchClauses : Explains (catchClauses fuel)
  catchClause : Explains (catchClause fuel)

theorem explainsWith_zero : ExplainsWith 0 where
  statement := explains_outOfFuel
  construct := explains_outOfFuel
  block := explains_outOfFuel
  blockItems := explains_outOfFuel
  ifStmt := explains_outOfFuel
  forStmt := explains_outOfFuel
  loopClauses _ _ := explains_outOfFuel
  functionStmt := explains_outOfFuel
  tryStmt := explains_outOfFuel
  catchClauses := explains_outOfFuel
  catchClause := explains_outOfFuel

/-- Readers that explain themselves make readers of the next round that do. -/
theorem explainsWith_succ {fuel : Nat} (h : ExplainsWith fuel) : ExplainsWith (fuel + 1) := by
  obtain ⟨_, _, _, _, _, _, _, _, _, _, _⟩ := h
  constructor
  · rw [statement_succ]
    infer_instance
  · exact Explains.bind inferInstance fun token => by split <;> infer_instance
  · rw [block]
    infer_instance
  · rw [blockItems]
    infer_instance
  · rw [ifStmt]
    repeat' first | infer_instance | refine Explains.bind inferInstance fun _ => ?_
  · have hAfter : ∀ token init opened, Explains (afterInit fuel token init opened) := by
      intro token init opened
      unfold afterInit
      split <;> infer_instance
    rw [forStmt_succ]
    infer_instance
  · intro token init
    rw [loopClauses_succ]
    repeat' first | infer_instance | refine Explains.bind inferInstance fun _ => ?_
  · rw [functionStmt]
    infer_instance
  · rw [tryStmt]
    infer_instance
  · rw [catchClauses]
    infer_instance
  · rw [catchClause]
    repeat' first | infer_instance | refine Explains.bind inferInstance fun _ => ?_ | split

/-- Whatever the fuel, a reader of statements that gives up has reported why. -/
theorem explainsWith (fuel : Nat) : ExplainsWith fuel := by
  induction fuel with
  | zero => exact explainsWith_zero
  | succ fuel ih => exact explainsWith_succ ih

instance (fuel : Nat) : Explains (statement fuel) := (explainsWith fuel).statement

instance (fuel : Nat) : Explains (construct fuel) := (explainsWith fuel).construct

instance (fuel : Nat) : Explains (block fuel) := (explainsWith fuel).block

instance (fuel : Nat) : Explains (blockItems fuel) := (explainsWith fuel).blockItems

instance (fuel : Nat) : Explains (ifStmt fuel) := (explainsWith fuel).ifStmt

instance (fuel : Nat) (token : Token) (init : Stmt) : Explains (loopClauses fuel token init) :=
  (explainsWith fuel).loopClauses token init

instance (fuel : Nat) (token : Token) (init : Stmt) (opened : Bool) :
    Explains (afterInit fuel token init opened) := by
  unfold afterInit
  split <;> infer_instance

instance (fuel : Nat) : Explains (catchClauses fuel) := (explainsWith fuel).catchClauses

instance (fuel : Nat) : Explains (catchClause fuel) := (explainsWith fuel).catchClause

end Explanations

/-! ### What a quiet run comes to -/

def ReadsStmt (s : State) (tokens : List Token) (stmt : Stmt) (s' : State) : Prop :=
  ∃ (phrase : StmtPhrase) (last : Token) (more : List Token),
    tokens = phrase.tokens ++ more ∧ s' = (s.on (last :: more)).leaving phrase.trailing
      ∧ stmt = phrase.tree ∧ phrase.Fits (nextKind more)

def ReadsBlock (s : State) (tokens : List Token) (stmt : Stmt) (s' : State) : Prop :=
  ∃ (phrase : BlockPhrase) (last : Token) (more : List Token),
    tokens = phrase.tokens ++ more ∧ s' = s.on (last :: more) ∧ stmt = phrase.tree
      ∧ phrase.Fits

def ReadsItems (s : State) (tokens : List Token) (stmts : List Stmt) (s' : State) : Prop :=
  ∃ (phrase : ItemsPhrase) (closing : Mark .rbrace) (more : List Token),
    tokens = phrase.tokens ++ closing.val :: more ∧ s' = s.on (closing.val :: more)
      ∧ stmts = phrase.trees ∧ phrase.Fits .rbrace

def ReadsIf (s : State) (tokens : List Token) (stmt : Stmt) (s' : State) : Prop :=
  ∃ (phrase : IfPhrase) (last : Token) (more : List Token),
    tokens = phrase.tokens ++ more ∧ s' = s.on (last :: more) ∧ stmt = phrase.tree
      ∧ phrase.Fits (nextKind more)

def ReadsCatches (s : State) (tokens : List Token) (stmts : List Stmt) (found : List Token)
    (s' : State) : Prop :=
  ∃ (phrase : CatchesPhrase) (comments : Comments) (last : Token) (more : List Token),
    tokens = phrase.tokens ++ (comments.val ++ more) ∧ s' = s.on (last :: more)
      ∧ stmts = phrase.trees ∧ found = comments.val ∧ phrase.Fits
      ∧ (nextKind more).isComment = false ∧ nextKind more ≠ .kwCatch

def ReadsCatch (s : State) (tokens : List Token) (stmt : Stmt) (s' : State) : Prop :=
  ∃ (keyword : Mark .kwCatch) (binding : Option BindingPhrase) (body : BlockPhrase)
    (last : Token) (more : List Token),
    tokens = keyword.val :: (tokensIf BindingPhrase.tokens binding ++ (body.tokens ++ more))
      ∧ s' = s.on (last :: more) ∧ stmt = catchTree keyword.val body.tree binding
      ∧ (∀ phrase, binding = some phrase → phrase.Fits) ∧ body.Fits

/-- What `statement` reads: a lone semicolon, or a statement with the semicolon behind it. -/
def ReadsStatement (s : State) (tokens : List Token) (result : Option Stmt) (s' : State) : Prop :=
  (∃ (mark : Mark .semicolon) (more : List Token),
    tokens = mark.val :: more ∧ s' = s.on (mark.val :: more) ∧ result = none) ∨
  ∃ (phrase : StmtPhrase) (semicolon : Option (Mark .semicolon)) (last : Token)
    (more : List Token),
    tokens = phrase.tokens ++ (tokensIf (fun mark => [mark.val]) semicolon ++ more)
      ∧ s' = (s.on (last :: more)).leaving phrase.trailing ∧ result = some phrase.tree
      ∧ phrase.Fits (nextKind (tokensIf (fun mark => [mark.val]) semicolon ++ more))
      ∧ (semicolon = none → nextKind more ≠ .semicolon)

/-- A function that reads statements is sound if its quiet runs come to what they should. -/
def Sound {α : Type} (step : ParseM α) (Start : List Token → Prop)
    (Reads : State → List Token → α → State → Prop) : Prop :=
  ∀ (s : State) (tokens : List Token) (a : α) (s' : State), s.trailing = [] → Start tokens →
    step (s.on tokens) = .ok a s' → s'.reports = s.reports → Reads s tokens a s'

structure SoundWith (fuel : Nat) : Prop where
  statement : Sound (statement fuel) (fun _ => True) ReadsStatement
  construct : Sound (construct fuel) (fun _ => True) ReadsStmt
  block : Sound (block fuel) (fun tokens => nextKind tokens = .lbrace) ReadsBlock
  blockItems : Sound (blockItems fuel) (fun _ => True) ReadsItems
  ifStmt : Sound (ifStmt fuel) (fun tokens => nextKind tokens = .kwIf) ReadsIf
  forStmt : Sound (forStmt fuel) (fun tokens => nextKind tokens = .kwFor) ReadsStmt
  loopClauses : ∀ (keyword : Mark .kwFor) (init : Option SimplePhrase),
    (∀ phrase, init = some phrase → phrase.Fits .semicolon) →
    Sound (loopClauses fuel keyword.val ((init.map SimplePhrase.tree).getD .missing))
      (fun tokens => nextKind tokens = .semicolon)
      fun s tokens => ReadsStmt s (keyword.val :: (tokensIf SimplePhrase.tokens init ++ tokens))
  functionStmt : Sound (functionStmt fuel) (fun tokens => nextKind tokens = .kwFunc) ReadsStmt
  tryStmt : Sound (tryStmt fuel) (fun tokens => nextKind tokens = .kwTry) ReadsStmt
  catchClauses : Sound (catchClauses fuel) (fun tokens => tokens ≠ [])
    fun s tokens found => ReadsCatches s tokens.tail found.1 found.2
  catchClause : Sound (catchClause fuel) (fun tokens => nextKind tokens = .kwCatch) ReadsCatch

section Backwards

variable {fuel : Nat}

/-- What a round reads for a statement is a phrase, or a semicolon that stands alone. -/
theorem sound_statement_succ (h : SoundWith fuel) :
    Sound (statement (fuel + 1)) (fun _ => True) ReadsStatement := by
  intro s tokens result s' hTrailing _ hRun hQuiet
  rw [statement_succ, cur_bind, State.kind_cur_on] at hRun
  by_cases hSemicolon : nextKind tokens = .semicolon
  · obtain ⟨mark, more, rfl⟩ := exists_mark_of_nextKind hSemicolon (by decide)
    rw [if_pos (by simpa using hSemicolon)] at hRun
    cases hRun
    exact Or.inl ⟨mark, more, rfl, rfl, rfl⟩
  · rw [if_neg (by simpa using hSemicolon)] at hRun
    obtain ⟨result, middle, hAttempt, hMiddle, hRest⟩ := bind_quiet hRun hQuiet
    obtain ⟨stmt, rfl, hConstruct⟩ := attempt_quiet hAttempt hMiddle
    obtain ⟨phrase, last, more, rfl, rfl, rfl, hFits⟩ :=
      h.construct s tokens stmt middle hTrailing trivial hConstruct hMiddle
    obtain ⟨_, middle, hSkip, hRest⟩ := bind_ok hRest
    rw [← State.on_leaving] at hSkip
    obtain ⟨semicolon, last, more, rfl, rfl, hNext⟩ := skipSemicolon_ok hSkip
    cases hRest
    exact Or.inr ⟨phrase, semicolon, last, more, rfl, rfl, rfl, hFits, hNext⟩

/-- What a round reads for a block is a phrase between braces. -/
theorem sound_block_succ (h : SoundWith fuel) :
    Sound (block (fuel + 1)) (fun tokens => nextKind tokens = .lbrace) ReadsBlock := by
  intro s tokens stmt s' hTrailing hStart hRun hQuiet
  obtain ⟨opening, more, rfl⟩ := exists_mark_of_nextKind hStart (by decide)
  rw [block, cur_bind, advance_bind] at hRun
  obtain ⟨stmts, middle, hItems, hMiddle, hRest⟩ := bind_quiet hRun hQuiet
  obtain ⟨items, closing, more, rfl, rfl, rfl, hFits⟩ :=
    h.blockItems s more stmts middle hTrailing trivial hItems hMiddle
  cases hRest
  exact ⟨.mk opening items closing, closing.val, more, by simp [BlockPhrase.tokens], rfl, rfl,
    hFits⟩

/-- What a round reads for the statements of a block is a phrase up to the brace. -/
theorem sound_blockItems_succ (h : SoundWith fuel) :
    Sound (blockItems (fuel + 1)) (fun _ => True) ReadsItems := by
  intro s tokens stmts s' hTrailing _ hRun hQuiet
  rw [blockItems, cur_bind, State.kind_cur_on] at hRun
  by_cases hClosed : nextKind tokens = .rbrace
  · obtain ⟨closing, more, rfl⟩ := exists_mark_of_nextKind hClosed (by decide)
    rw [if_pos (by simpa using hClosed)] at hRun
    cases hRun
    exact ⟨.nil, closing, more, rfl, rfl, rfl, trivial⟩
  rw [if_neg (by simpa using hClosed)] at hRun
  by_cases hEof : nextKind tokens = .eof
  · rw [if_pos (by simpa using hEof)] at hRun
    exact absurd hQuiet (report_bind_loud (s := s.on tokens) hRun)
  rw [if_neg (by simpa using hEof)] at hRun
  obtain ⟨result, middle, hStatement, hMiddle, hRest⟩ := bind_quiet hRun hQuiet
  rcases h.statement s tokens result middle hTrailing trivial hStatement hMiddle with
    ⟨mark, more, rfl, rfl, rfl⟩ | ⟨phrase, semicolon, last, more, rfl, rfl, rfl, hFits, hNext⟩
  · rw [← State.leaving_nil (s.on (mark.val :: more)), takeTrailing_bind _ _ _ hTrailing,
      advance_bind] at hRest
    obtain ⟨others, middle, hOthers, hMiddle, hRest⟩ := bind_quiet hRest hQuiet
    obtain ⟨items, closing, more, rfl, rfl, rfl, hItems⟩ :=
      h.blockItems s more others middle hTrailing trivial hOthers hMiddle
    cases hRest
    exact ⟨.semicolon mark items, closing, more, rfl, rfl, rfl, hItems⟩
  · rw [takeTrailing_bind _ _ _ hTrailing, advance_bind] at hRest
    obtain ⟨others, middle, hOthers, hMiddle, hRest⟩ := bind_quiet hRest hQuiet
    obtain ⟨items, closing, more, rfl, rfl, rfl, hItems⟩ :=
      h.blockItems s more others middle hTrailing trivial hOthers hMiddle
    cases hRest
    refine ⟨.cons phrase semicolon items, closing, more, by simp [ItemsPhrase.tokens], rfl,
      by simp [ItemsPhrase.trees], ?_⟩
    have hClosing : nextKind (closing.val :: more) = .rbrace := closing.property
    cases semicolon with
    | some mark =>
        rw [tokensIf_some, List.singleton_append, nextKind_cons, mark.property] at hFits
        exact ⟨hFits, hItems⟩
    | none =>
        rw [tokensIf_none, List.nil_append, nextKind_append, hClosing] at hFits
        rw [nextKind_append, hClosing] at hNext
        exact ⟨hFits, hNext rfl, hItems⟩

/-- What a round reads for a conditional is a chain. -/
theorem sound_ifStmt_succ (h : SoundWith fuel) :
    Sound (ifStmt (fuel + 1)) (fun tokens => nextKind tokens = .kwIf) ReadsIf := by
  intro s tokens stmt s' hTrailing hStart hRun hQuiet
  obtain ⟨keyword, more, rfl⟩ := exists_mark_of_nextKind hStart (by decide)
  rw [ifStmt, cur_bind, advance_bind] at hRun
  obtain ⟨condition, middle, hConditionRun, hMiddle, hRest⟩ := bind_quiet_of hRun hQuiet fun _ => by
    repeat' first | infer_instance | refine Grows.bind inferInstance fun _ => ?_
  obtain ⟨condition, last, more, rfl, rfl, rfl, hCondition, -, -⟩ :=
    readExpr_quiet hConditionRun hMiddle
  obtain ⟨_, middle, hExpect, hRest⟩ := bind_ok hRest
  obtain ⟨opening, more, rfl, rfl⟩ := expect_ok hExpect (by decide)
  obtain ⟨body, middle, hBody, hMiddle, hRest⟩ := bind_quiet_of hRest hQuiet fun _ => by
    repeat' first | infer_instance | refine Grows.bind inferInstance fun _ => ?_
  obtain ⟨body, last, more, hTokens, rfl, rfl, hBodyFits⟩ :=
    h.block s (opening.val :: more) body middle hTrailing opening.property hBody hMiddle
  rw [hTokens]
  rw [peekIs_bind, State.kind_peek_on_cons, State.cur_on_cons] at hRest
  by_cases hElse : nextKind more = .kwElse
  · obtain ⟨otherwise, more, rfl⟩ := exists_mark_of_nextKind hElse (by decide)
    rw [if_pos (by simpa using hElse), advance_bind, peekIs_bind, State.kind_peek_on_cons] at hRest
    by_cases hIf : nextKind more = .kwIf
    · rw [if_pos (by simpa using hIf), advance_bind] at hRest
      obtain ⟨chain, middle, hChain, hMiddle, hRest⟩ := bind_quiet hRest hQuiet
      obtain ⟨chain, last, more, rfl, rfl, rfl, hChainFits⟩ :=
        h.ifStmt s more chain middle hTrailing hIf hChain hMiddle
      cases hRest
      exact ⟨.elseIf keyword condition body otherwise chain, last, more,
        by simp [IfPhrase.tokens], rfl, rfl, hCondition, hBodyFits, hChainFits⟩
    · rw [if_neg (by simpa using hIf)] at hRest
      obtain ⟨_, middle, hExpect, hRest⟩ := bind_ok hRest
      obtain ⟨opening', more, rfl, rfl⟩ := expect_ok hExpect (by decide)
      obtain ⟨alternative, middle, hAlternative, hMiddle, hRest⟩ := bind_quiet hRest hQuiet
      obtain ⟨alternative, last, more, hTokens, rfl, rfl, hAlternativeFits⟩ :=
        h.block s (opening'.val :: more) alternative middle hTrailing opening'.property hAlternative
          hMiddle
      cases hRest
      rw [hTokens]
      exact ⟨.elseBlock keyword condition body otherwise alternative, last, more,
        by simp [IfPhrase.tokens], rfl, rfl, hCondition, hBodyFits, hAlternativeFits⟩
  · rw [if_neg (by simpa using hElse)] at hRest
    cases hRest
    exact ⟨.plain keyword condition body, last, more, by simp [IfPhrase.tokens], rfl, rfl,
      hCondition, hBodyFits, hElse⟩

/-- A condition that is read without a report is an expression, or left out. -/
theorem loopCondition_quiet {s s' : State} {tokens : List Token} {e : Expr}
    (hRun : loopCondition (s.on tokens) = .ok e s') (hQuiet : s'.reports = s.reports) :
    ∃ (condition : Option ExprPhrase) (second : Mark .semicolon) (more : List Token),
      tokens = tokensIf ExprPhrase.tokens condition ++ second.val :: more
        ∧ s' = s.on (second.val :: more)
        ∧ e = (condition.map ExprPhrase.tree).getD .missing
        ∧ ∀ phrase, condition = some phrase → phrase.Levelled TokenKind.level := by
  rw [loopCondition, cur_bind, State.kind_cur_on] at hRun
  by_cases hEmpty : nextKind tokens = .semicolon
  · obtain ⟨second, more, rfl⟩ := exists_mark_of_nextKind hEmpty (by decide)
    rw [if_pos (by simpa using hEmpty)] at hRun
    cases hRun
    exact ⟨none, second, more, rfl, rfl, rfl, by rintro _ ⟨⟩⟩
  · rw [if_neg (by simpa using hEmpty)] at hRun
    obtain ⟨condition, middle, hCondition, hMiddle, hRest⟩ := bind_quiet hRun hQuiet
    obtain ⟨condition, last, more, rfl, rfl, rfl, hLevelled, -, -⟩ :=
      readExpr_quiet hCondition hMiddle
    obtain ⟨_, middle, hExpect, hRest⟩ := bind_ok hRest
    obtain ⟨second, more, rfl, rfl⟩ := expect_ok hExpect (by decide)
    cases hRest
    exact ⟨some condition, second, more, rfl, rfl, rfl, by rintro _ ⟨⟩; exact hLevelled⟩

/-- What a round reads behind the first semicolon of a loop is the rest of a header and a body. -/
theorem sound_loopClauses_succ (h : SoundWith fuel) (keyword : Mark .kwFor)
    (init : Option SimplePhrase) (hInit : ∀ phrase, init = some phrase → phrase.Fits .semicolon) :
    Sound (loopClauses (fuel + 1) keyword.val ((init.map SimplePhrase.tree).getD .missing))
      (fun tokens => nextKind tokens = .semicolon)
      fun s tokens => ReadsStmt s (keyword.val :: (tokensIf SimplePhrase.tokens init ++ tokens)) := by
  intro s tokens stmt s' hTrailing hStart hRun hQuiet
  obtain ⟨first, more, rfl⟩ := exists_mark_of_nextKind hStart (by decide)
  rw [loopClauses_succ, advance_bind] at hRun
  obtain ⟨condition, middle, hConditionRun, hMiddle, hRest⟩ := bind_quiet hRun hQuiet
  obtain ⟨condition, second, more, rfl, rfl, rfl, hCondition⟩ :=
    loopCondition_quiet hConditionRun hMiddle
  rw [advance_bind, cur_bind, State.kind_cur_on] at hRest
  by_cases hBrace : nextKind more = .lbrace
  · rw [if_pos (by simpa using hBrace)] at hRest
    obtain ⟨body, middle, hBody, hMiddle, hRest⟩ := bind_quiet hRest hQuiet
    obtain ⟨body, last, more, rfl, rfl, rfl, hBodyFits⟩ :=
      h.block s more body middle hTrailing hBrace hBody hMiddle
    cases hRest
    exact ⟨.loop keyword (.clauses init first condition second none) body, last, more,
      by simp [StmtPhrase.tokens, LoopPhrase.tokens], by simp [StmtPhrase.trailing], rfl,
      ⟨hInit, hCondition, by rintro _ ⟨⟩⟩, hBodyFits⟩
  · rw [if_neg (by simpa using hBrace)] at hRest
    obtain ⟨update, middle, hAttempt, hMiddle, hRest⟩ := bind_quiet hRest hQuiet
    obtain ⟨update, rfl, hUpdateRun⟩ := attempt_quiet hAttempt hMiddle
    obtain ⟨update, last, more, rfl, rfl, rfl, hUpdate⟩ := simpleStmt_quiet hUpdateRun hMiddle
    obtain ⟨_, middle, hExpect, hRest⟩ := bind_ok hRest
    obtain ⟨opening, more, rfl, rfl⟩ := expect_ok hExpect (by decide)
    obtain ⟨body, middle, hBody, hMiddle, hRest⟩ := bind_quiet hRest hQuiet
    obtain ⟨body, last, more, hTokens, rfl, rfl, hBodyFits⟩ :=
      h.block s (opening.val :: more) body middle hTrailing opening.property hBody hMiddle
    cases hRest
    rw [nextKind_cons, opening.property] at hUpdate
    rw [hTokens]
    exact ⟨.loop keyword (.clauses init first condition second (some update)) body, last, more,
      by simp [StmtPhrase.tokens, LoopPhrase.tokens], by simp [StmtPhrase.trailing], rfl,
      ⟨hInit, hCondition, by rintro _ ⟨⟩; exact hUpdate⟩, hBodyFits⟩

/-- What a round reads for a loop is one of its three forms. -/
theorem sound_forStmt_succ (h : SoundWith fuel) :
    Sound (forStmt (fuel + 1)) (fun tokens => nextKind tokens = .kwFor) ReadsStmt := by
  intro s tokens stmt s' hTrailing hStart hRun hQuiet
  obtain ⟨keyword, more, rfl⟩ := exists_mark_of_nextKind hStart (by decide)
  rw [forStmt_succ, cur_bind, peekIs_bind, State.kind_peek_on_cons, State.cur_on_cons] at hRun
  by_cases hEndless : nextKind more = .lbrace
  · rw [if_pos (by simpa using hEndless), advance_bind] at hRun
    obtain ⟨body, middle, hBody, hMiddle, hRest⟩ := bind_quiet hRun hQuiet
    obtain ⟨body, last, more, rfl, rfl, rfl, hBodyFits⟩ :=
      h.block s more body middle hTrailing hEndless hBody hMiddle
    cases hRest
    exact ⟨.loop keyword .endless body, last, more, rfl, by simp [StmtPhrase.trailing], rfl, trivial,
      hBodyFits⟩
  rw [if_neg (by simpa using hEndless), advance_bind, cur_bind, State.kind_cur_on] at hRun
  by_cases hClauses : nextKind more = .semicolon
  · rw [if_pos (by simpa using hClauses)] at hRun
    exact h.loopClauses keyword none (by rintro _ ⟨⟩) s more stmt s' hTrailing hClauses hRun hQuiet
  rw [if_neg (by simpa using hClauses)] at hRun
  obtain ⟨init, middle, hInitRun, hMiddle, hRest⟩ := bind_quiet hRun hQuiet
  obtain ⟨init, last, more, rfl, rfl, rfl, hInit⟩ := simpleStmt_quiet hInitRun hMiddle
  rw [peekIs_bind, State.kind_peek_on_cons] at hRest
  by_cases hWhile : (∃ condition, init = .expr condition) ∧ nextKind more = .lbrace
  · obtain ⟨⟨condition, rfl⟩, hBrace⟩ := hWhile
    rw [hBrace, SimplePhrase.tree, beq_self_eq_true, afterInit, advance_bind] at hRest
    obtain ⟨body, middle, hBody, hMiddle, hRest⟩ := bind_quiet hRest hQuiet
    obtain ⟨body, last, more, rfl, rfl, rfl, hBodyFits⟩ :=
      h.block s more body middle hTrailing hBrace hBody hMiddle
    cases hRest
    exact ⟨.loop keyword (.whileTrue condition) body, last, more,
      by simp [StmtPhrase.tokens, LoopPhrase.tokens, SimplePhrase.tokens],
      by simp [StmtPhrase.trailing], rfl, hInit.1, hBodyFits⟩
  · have hOther : afterInit fuel keyword.val init.tree (nextKind more == .lbrace) =
        expect .semicolon >>= fun _ => loopClauses fuel keyword.val init.tree := by
      cases init with
      | expr condition =>
          have hBrace : nextKind more ≠ .lbrace := fun hEq => hWhile ⟨⟨condition, rfl⟩, hEq⟩
          rw [beq_false_of_ne hBrace, afterInit_false]
      | define | assign | incr => rfl
    rw [hOther] at hRest
    obtain ⟨_, middle, hExpect, hRest⟩ := bind_ok hRest
    obtain ⟨first, more, rfl, rfl⟩ := expect_ok hExpect (by decide)
    rw [nextKind_cons, first.property] at hInit
    exact h.loopClauses keyword (some init) (by rintro _ ⟨⟩; exact hInit) s (first.val :: more)
      stmt s' hTrailing first.property hRest hQuiet

/-- What a round reads for a function is a phrase. -/
theorem sound_functionStmt_succ (h : SoundWith fuel) :
    Sound (functionStmt (fuel + 1)) (fun tokens => nextKind tokens = .kwFunc) ReadsStmt := by
  intro s tokens stmt s' hTrailing hStart hRun hQuiet
  obtain ⟨keyword, more, rfl⟩ := exists_mark_of_nextKind hStart (by decide)
  rw [functionStmt, cur_bind] at hRun
  obtain ⟨_, middle, hExpect, hRest⟩ := bind_ok hRun
  obtain ⟨name, more, rfl, rfl⟩ := expect_ok hExpect (by decide)
  rw [curIdent_bind] at hRest
  obtain ⟨_, middle, hExpect, hRest⟩ := bind_ok hRest
  obtain ⟨opening, more, rfl, rfl⟩ := expect_ok hExpect (by decide)
  obtain ⟨params, middle, hParamsRun, hRest⟩ := bind_ok hRest
  obtain ⟨params, closing, more, rfl, rfl, rfl, hParams⟩ := readParameters_ok hParamsRun
  obtain ⟨result, middle, hResultRun, hRest⟩ := bind_ok hRest
  obtain ⟨result, last, more, rfl, rfl, rfl, hResult⟩ := readResult_ok hResultRun
  obtain ⟨_, middle, hExpect, hRest⟩ := bind_ok hRest
  obtain ⟨brace, more, rfl, rfl⟩ := expect_ok hExpect (by decide)
  obtain ⟨body, middle, hBody, hMiddle, hRest⟩ := bind_quiet hRest hQuiet
  obtain ⟨body, last, more, hTokens, rfl, rfl, hBodyFits⟩ :=
    h.block s (brace.val :: more) body middle hTrailing brace.property hBody hMiddle
  cases hRest
  rw [hTokens]
  exact ⟨.func keyword name opening params closing result body, last, more,
    by simp [StmtPhrase.tokens], by simp [StmtPhrase.trailing], rfl, hParams,
    hResult brace.property, hBodyFits⟩

/-- What a round reads for a clause is a phrase, with what it binds or without. -/
theorem sound_catchClause_succ (h : SoundWith fuel) :
    Sound (catchClause (fuel + 1)) (fun tokens => nextKind tokens = .kwCatch) ReadsCatch := by
  intro s tokens stmt s' hTrailing hStart hRun hQuiet
  obtain ⟨keyword, more, rfl⟩ := exists_mark_of_nextKind hStart (by decide)
  rw [catchClause, cur_bind, peekIs_bind, State.kind_peek_on_cons, State.cur_on_cons] at hRun
  by_cases hBound : nextKind more = .lparen
  · obtain ⟨opening, more, rfl⟩ := exists_mark_of_nextKind hBound (by decide)
    rw [if_pos (by simpa using hBound), advance_bind] at hRun
    obtain ⟨_, middle, hExpect, hRest⟩ := bind_ok hRun
    obtain ⟨name, more, rfl, rfl⟩ := expect_ok hExpect (by decide)
    rw [curIdent_bind, peekIs_bind, State.kind_peek_on_cons] at hRest
    by_cases hUntyped : nextKind more = .rparen
    · obtain ⟨closing, more, rfl⟩ := exists_mark_of_nextKind hUntyped (by decide)
      rw [if_pos (by simpa using hUntyped), advance_bind] at hRest
      obtain ⟨_, middle, hExpect, hRest⟩ := bind_ok hRest
      obtain ⟨brace, more, rfl, rfl⟩ := expect_ok hExpect (by decide)
      obtain ⟨body, middle, hBody, hMiddle, hRest⟩ := bind_quiet hRest hQuiet
      obtain ⟨body, last, more, hTokens, rfl, rfl, hBodyFits⟩ :=
        h.block s (brace.val :: more) body middle hTrailing brace.property hBody hMiddle
      cases hRest
      rw [hTokens]
      exact ⟨keyword, some ⟨opening, name, none, closing⟩, body, last, more,
        by simp [BindingPhrase.tokens], rfl, rfl, by rintro _ ⟨⟩ _ ⟨⟩, hBodyFits⟩
    · rw [if_neg (by simpa using hUntyped), advance_bind] at hRest
      obtain ⟨type, middle, hTypeRun, hRest⟩ := bind_ok hRest
      obtain ⟨type, last, more, rfl, rfl, rfl, hType⟩ := readType_ok hTypeRun
      obtain ⟨_, middle, hExpect, hRest⟩ := bind_ok hRest
      obtain ⟨closing, more, rfl, rfl⟩ := expect_ok hExpect (by decide)
      obtain ⟨_, middle, hExpect, hRest⟩ := bind_ok hRest
      obtain ⟨brace, more, rfl, rfl⟩ := expect_ok hExpect (by decide)
      obtain ⟨body, middle, hBody, hMiddle, hRest⟩ := bind_quiet hRest hQuiet
      obtain ⟨body, last, more, hTokens, rfl, rfl, hBodyFits⟩ :=
        h.block s (brace.val :: more) body middle hTrailing brace.property hBody hMiddle
      cases hRest
      rw [nextKind_cons, closing.property] at hType
      rw [hTokens]
      exact ⟨keyword, some ⟨opening, name, some type, closing⟩, body, last, more,
        by simp [BindingPhrase.tokens], rfl, rfl, by rintro _ ⟨⟩ _ ⟨⟩; exact hType, hBodyFits⟩
  · rw [if_neg (by simpa using hBound)] at hRun
    obtain ⟨_, middle, hExpect, hRest⟩ := bind_ok hRun
    obtain ⟨brace, more, rfl, rfl⟩ := expect_ok hExpect (by decide)
    obtain ⟨body, middle, hBody, hMiddle, hRest⟩ := bind_quiet hRest hQuiet
    obtain ⟨body, last, more, hTokens, rfl, rfl, hBodyFits⟩ :=
      h.block s (brace.val :: more) body middle hTrailing brace.property hBody hMiddle
    cases hRest
    rw [hTokens]
    exact ⟨keyword, none, body, last, more, rfl, rfl, rfl, by rintro _ ⟨⟩, hBodyFits⟩

/-- What a round reads behind the block of a try are clauses with comments between them. -/
theorem sound_catchClauses_succ (h : SoundWith fuel) :
    Sound (catchClauses (fuel + 1)) (fun tokens => tokens ≠ [])
      fun s tokens found => ReadsCatches s tokens.tail found.1 found.2 := by
  intro s tokens found s' hTrailing hStart hRun hQuiet
  obtain ⟨token, rest, rfl⟩ := List.exists_cons_of_ne_nil hStart
  rw [catchClauses] at hRun
  obtain ⟨_, middle, hSkip, hRest⟩ := bind_ok hRun
  obtain ⟨comments, last, more, rfl, rfl, rfl, hNext⟩ := skipComments_ok hSkip
  rw [peekIs_bind, State.kind_peek_on_cons] at hRest
  by_cases hCatch : nextKind more = .kwCatch
  · rw [if_pos (by simpa using hCatch), advance_bind] at hRest
    obtain ⟨clause, middle, hAttempt, hMiddle, hRest⟩ := bind_quiet hRest hQuiet
    obtain ⟨clause, rfl, hClause⟩ := attempt_quiet hAttempt hMiddle
    obtain ⟨keyword, binding, body, last, more, rfl, rfl, rfl, hBinding, hBody⟩ :=
      h.catchClause s more clause middle hTrailing hCatch hClause hMiddle
    obtain ⟨others, middle, hOthers, hMiddle, hRest⟩ := bind_quiet hRest hQuiet
    obtain ⟨catches, comments', last, more, hTokens, rfl, hTrees, hFound, hCatches, hNext, hCatch⟩ :=
      h.catchClauses s (last :: more) others middle hTrailing (List.cons_ne_nil _ _) hOthers hMiddle
    cases hRest
    rw [List.tail_cons] at hTokens
    refine ⟨.cons comments keyword binding body catches, comments', last, more, ?_, rfl, ?_, hFound,
      ⟨hBinding, hBody, hCatches⟩, hNext, hCatch⟩
    · simp [CatchesPhrase.tokens, hTokens]
    · rw [catchesPhrase_trees_cons, ← hTrees]
      rfl
  · rw [if_neg (by simpa using hCatch)] at hRest
    cases hRest
    exact ⟨.nil, comments, last, more, rfl, rfl, rfl, rfl, trivial, hNext, hCatch⟩

/-- What a round reads for a try is a phrase, with a finally or without. -/
theorem sound_tryStmt_succ (h : SoundWith fuel) :
    Sound (tryStmt (fuel + 1)) (fun tokens => nextKind tokens = .kwTry) ReadsStmt := by
  intro s tokens stmt s' hTrailing hStart hRun hQuiet
  obtain ⟨keyword, more, rfl⟩ := exists_mark_of_nextKind hStart (by decide)
  rw [tryStmt, cur_bind] at hRun
  obtain ⟨_, middle, hExpect, hRest⟩ := bind_ok hRun
  obtain ⟨brace, more, rfl, rfl⟩ := expect_ok hExpect (by decide)
  obtain ⟨body, middle, hBody, hMiddle, hRest⟩ := bind_quiet hRest hQuiet
  obtain ⟨body, last, more, hTokens, rfl, rfl, hBodyFits⟩ :=
    h.block s (brace.val :: more) body middle hTrailing brace.property hBody hMiddle
  rw [hTokens]
  obtain ⟨⟨stmts, found⟩, middle, hCatchesRun, hMiddle, hRest⟩ := bind_quiet hRest hQuiet
  obtain ⟨catches, comments, last, more, hTokens, rfl, hTrees, hFound, hCatches, hNext, hCatch⟩ :=
    h.catchClauses s (last :: more) _ middle hTrailing (List.cons_ne_nil _ _) hCatchesRun hMiddle
  dsimp only at hTrees hFound
  subst hTrees
  subst hFound
  rw [List.tail_cons] at hTokens
  rw [hTokens]
  dsimp only at hRest
  rw [peekIs_bind, State.kind_peek_on_cons] at hRest
  by_cases hFinally : nextKind more = .kwFinally
  · obtain ⟨lastly, more, rfl⟩ := exists_mark_of_nextKind hFinally (by decide)
    rw [if_pos (by simpa using hFinally), advance_bind] at hRest
    obtain ⟨_, middle, hExpect, hRest⟩ := bind_ok hRest
    obtain ⟨brace, more, rfl, rfl⟩ := expect_ok hExpect (by decide)
    obtain ⟨cleanup, middle, hCleanup, hMiddle, hRest⟩ := bind_quiet hRest hQuiet
    obtain ⟨cleanup, last, more, hTokens, rfl, rfl, hCleanupFits⟩ :=
      h.block s (brace.val :: more) cleanup middle hTrailing brace.property hCleanup hMiddle
    cases hRest
    rw [hTokens]
    exact ⟨.tryFinally keyword body catches comments lastly cleanup, last, more,
      by simp [StmtPhrase.tokens], by simp [StmtPhrase.trailing], rfl, hBodyFits, hCatches,
      hCleanupFits⟩
  · rw [if_neg (by simpa using hFinally), leaveTrailing_bind] at hRest
    cases hRest
    exact ⟨.tryCatch keyword body catches comments, last, more, by simp [StmtPhrase.tokens], rfl,
      rfl, hBodyFits, hCatches, hNext, hCatch, hFinally⟩

/-! The statements that hold no others. -/

variable {s s' : State} {tokens : List Token} {stmt : Stmt}

/-- A run that leaves no comments behind. -/
theorem readsStmt_of (phrase : StmtPhrase) (last : Token) (more : List Token)
    (hTokens : tokens = phrase.tokens ++ more) (hTrailing : phrase.trailing = [])
    (hFits : phrase.Fits (nextKind more)) :
    ReadsStmt s tokens phrase.tree (s.on (last :: more)) :=
  ⟨phrase, last, more, hTokens, by rw [hTrailing, State.leaving_nil], rfl, hFits⟩

/-- A package clause that is read is a phrase. -/
theorem packageStmt_ok (hStart : nextKind tokens = .kwPackage)
    (hRun : packageStmt (s.on tokens) = .ok stmt s') : ReadsStmt s tokens stmt s' := by
  obtain ⟨keyword, more, rfl⟩ := exists_mark_of_nextKind hStart (by decide)
  rw [packageStmt, cur_bind] at hRun
  obtain ⟨_, middle, hExpect, hRest⟩ := bind_ok hRun
  obtain ⟨name, more, rfl, rfl⟩ := expect_ok hExpect (by decide)
  cases hRest
  exact readsStmt_of (.package keyword name) name.val more rfl rfl trivial

/-- An import that is read is a phrase, in brackets or not. -/
theorem importStmt_ok (hStart : nextKind tokens = .kwImport)
    (hRun : importStmt (s.on tokens) = .ok stmt s') : ReadsStmt s tokens stmt s' := by
  obtain ⟨keyword, more, rfl⟩ := exists_mark_of_nextKind hStart (by decide)
  rw [importStmt, cur_bind, peekIs_bind, State.kind_peek_on_cons] at hRun
  by_cases hGroup : nextKind more = .lparen
  · obtain ⟨opening, more, rfl⟩ := exists_mark_of_nextKind hGroup (by decide)
    rw [if_pos (by simpa using hGroup), advance_bind, tokensLeft_bind] at hRun
    obtain ⟨paths, middle, hPaths, hRest⟩ := bind_ok hRun
    obtain ⟨paths, last, closing, more, rfl, rfl, rfl⟩ := importPaths_ok _ _ _ _ hPaths
    cases hRest
    exact readsStmt_of (.importGroup keyword opening paths closing) closing.val more
      (by simp [StmtPhrase.tokens]) rfl trivial
  · rw [if_neg (by simpa using hGroup)] at hRun
    obtain ⟨_, middle, hExpect, hRest⟩ := bind_ok hRun
    obtain ⟨path, more, rfl, rfl⟩ := expect_ok hExpect (by decide)
    cases hRest
    exact readsStmt_of (.importOne keyword path) path.val more rfl rfl trivial

/-- The type that a declaration may have. -/
theorem declType_ok {name : Token} {type : Option GoType}
    (hRun : optionalType (s.on (name :: tokens)) = .ok type s') :
    ∃ (phrase : Option TypePhrase) (last : Token) (more : List Token),
      tokens = tokensIf TypePhrase.tokens phrase ++ more ∧ s' = s.on (last :: more)
        ∧ type.map GoType.text = phrase.map (fun type => type.type.text)
        ∧ (phrase = none → nextKind more ∉ TokenKind.typeStarts)
        ∧ ∀ phrase', phrase = some phrase' →
          phrase'.isVariadic = false ∧ phrase'.Fits (nextKind more) := by
  rcases optionalType_ok hRun with
    ⟨rfl, rfl, hStart⟩ | ⟨phrase, last, more, rfl, rfl, rfl, hVariadic, hFits⟩
  · exact ⟨none, name, tokens, rfl, rfl, rfl, fun _ => hStart, nofun⟩
  · exact ⟨some phrase, last, more, rfl, rfl, rfl, nofun, by
      rintro _ ⟨⟩
      exact ⟨hVariadic, hFits⟩⟩

/-- A declaration that is read without a report is a phrase. -/
theorem declStmt_quiet (kind : DeclKind) (hStart : nextKind tokens = kind.tokenKind)
    (hRun : declStmt kind (s.on tokens) = .ok stmt s') (hQuiet : s'.reports = s.reports) :
    ReadsStmt s tokens stmt s' := by
  obtain ⟨keyword, more, rfl⟩ := exists_mark_of_nextKind hStart (by cases kind <;> decide)
  rw [declStmt, cur_bind] at hRun
  obtain ⟨_, middle, hExpect, hRest⟩ := bind_ok hRun
  obtain ⟨name, more, rfl, rfl⟩ := expect_ok hExpect (by decide)
  rw [curIdent_bind] at hRest
  obtain ⟨type, middle, hTypeRun, hRest⟩ := bind_ok hRest
  obtain ⟨type, last, more, rfl, rfl, hText, hNone, hSome⟩ := declType_ok hTypeRun
  rw [hText, State.cur_on_cons] at hRest
  by_cases hInit : nextKind more = .assign
  · obtain ⟨op, more, rfl⟩ := exists_mark_of_nextKind hInit (by decide)
    have hValue : (readExpr >>= fun value => pure (Stmt.decl keyword.val kind
        (.ident name.val name.val.literal) (type.map fun type => type.type.text) value))
        (s.on more) = .ok stmt s' := by
      cases kind with
      | const =>
          dsimp only at hRest
          rw [expect_bind _ _ _ _ hInit, advance_bind] at hRest
          exact hRest
      | var =>
          dsimp only at hRest
          rw [peekIs_bind, State.kind_peek_on_cons, if_pos (by simpa using hInit), advance_bind,
            advance_bind] at hRest
          exact hRest
    obtain ⟨value, middle, hValueRun, hMiddle, hRest⟩ := bind_quiet hValue hQuiet
    obtain ⟨value, last, more, rfl, rfl, rfl, hLevelled, -, hLevel⟩ :=
      readExpr_quiet hValueRun hMiddle
    cases hRest
    rw [hInit] at hSome
    exact readsStmt_of (.decl kind keyword name type (some ⟨op, value⟩)) last more
      (by simp [StmtPhrase.tokens, InitPhrase.tokens]) rfl ⟨hSome, hLevelled, hLevel⟩
  · cases kind with
    | const =>
        dsimp only at hRest
        obtain ⟨_, middle, hExpect, _⟩ := bind_ok hRest
        obtain ⟨op, more, rfl, rfl⟩ := expect_ok hExpect (by decide)
        exact absurd op.property hInit
    | var =>
        dsimp only at hRest
        rw [peekIs_bind, State.kind_peek_on_cons, if_neg (by simpa using hInit)] at hRest
        cases hRest
        have hFits : StmtPhrase.Fits (nextKind more) (.decl .var keyword name type none) := by
          cases type with
          | none => exact ⟨rfl, hNone rfl, hInit⟩
          | some phrase => exact ⟨rfl, (hSome phrase rfl).1, (hSome phrase rfl).2, hInit⟩
        exact readsStmt_of _ last more (by simp [StmtPhrase.tokens]) rfl hFits

/-- A return that is read without a report is a phrase. -/
theorem returnStmt_quiet (hStart : nextKind tokens = .kwReturn)
    (hRun : returnStmt (s.on tokens) = .ok stmt s') (hQuiet : s'.reports = s.reports) :
    ReadsStmt s tokens stmt s' := by
  obtain ⟨keyword, more, rfl⟩ := exists_mark_of_nextKind hStart (by decide)
  rw [returnStmt, cur_bind, peek_bind, State.kind_peek_on_cons] at hRun
  by_cases hBare : nextKind more ∈ TokenKind.bareReturnFollowers
  · rw [if_pos (by simpa using hBare)] at hRun
    cases hRun
    exact readsStmt_of (.ret keyword none) keyword.val more rfl rfl hBare
  · rw [if_neg (by simpa using hBare), advance_bind] at hRun
    obtain ⟨values, middle, hValues, hMiddle, hRest⟩ := bind_quiet hRun hQuiet
    obtain ⟨values, last, more, rfl, rfl, rfl, hLevelled, hLevel, hComma⟩ :=
      readExprs_quiet hValues hMiddle
    cases hRest
    exact readsStmt_of (.ret keyword (some values)) last more rfl rfl ⟨hLevelled, hLevel, hComma⟩

/-- A throw that is read without a report is a phrase. -/
theorem throwStmt_quiet (hStart : nextKind tokens = .kwThrow)
    (hRun : throwStmt (s.on tokens) = .ok stmt s') (hQuiet : s'.reports = s.reports) :
    ReadsStmt s tokens stmt s' := by
  obtain ⟨keyword, more, rfl⟩ := exists_mark_of_nextKind hStart (by decide)
  rw [throwStmt, cur_bind, advance_bind] at hRun
  obtain ⟨value, middle, hValue, hMiddle, hRest⟩ := bind_quiet hRun hQuiet
  obtain ⟨value, last, more, rfl, rfl, rfl, hLevelled, -, hLevel⟩ :=
    requireExpr_quiet hValue hMiddle
  cases hRest
  exact readsStmt_of (.throw keyword value) last more rfl rfl ⟨hLevelled, hLevel⟩

theorem comment_ok (hKind : (nextKind tokens).isComment = true)
    (hRun : (pure (commentStmt (s.on tokens).cursor.cur) : ParseM Stmt) (s.on tokens) =
      .ok stmt s') : ReadsStmt s tokens stmt s' := by
  cases tokens with
  | nil => exact absurd hKind Bool.false_ne_true
  | cons token more =>
      cases hRun
      exact readsStmt_of (.comment token hKind) token more rfl rfl trivial

theorem branch_ok (hKind : nextKind tokens = .kwBreak ∨ nextKind tokens = .kwContinue)
    (hRun : (pure (.branch (s.on tokens).cursor.cur) : ParseM Stmt) (s.on tokens) =
      .ok stmt s') : ReadsStmt s tokens stmt s' := by
  cases tokens with
  | nil => rcases hKind with hKind | hKind <;> cases hKind
  | cons token more =>
      cases hRun
      exact readsStmt_of (.branch token hKind) token more rfl rfl trivial

/-- What no keyword starts is a simple statement. -/
theorem construct_other (hKind : nextKind tokens ∉ TokenKind.stmtStarts) :
    construct (fuel + 1) (s.on tokens) = simpleStmt (s.on tokens) := by
  rw [construct, cur_bind, State.kind_cur_on]
  generalize nextKind tokens = kind at hKind ⊢
  cases kind <;> first | rfl | exact absurd (by decide) hKind

/-- What a round reads for a construct is a phrase, by the keyword that starts it. -/
theorem sound_construct_succ (h : SoundWith fuel) :
    Sound (construct (fuel + 1)) (fun _ => True) ReadsStmt := by
  intro s tokens stmt s' hTrailing _ hRun hQuiet
  have hSimple : simpleStmt (s.on tokens) = .ok stmt s' → ReadsStmt s tokens stmt s' := by
    intro hRun
    obtain ⟨phrase, last, more, rfl, rfl, rfl, hFits⟩ := simpleStmt_quiet hRun hQuiet
    exact readsStmt_of (.simple phrase) last more rfl rfl hFits
  by_cases hOther : nextKind tokens ∉ TokenKind.stmtStarts
  · rw [construct_other hOther] at hRun
    exact hSimple hRun
  by_cases hExpr : nextKind tokens ∈ TokenKind.exprStarts
  · rw [construct_simple s hExpr] at hRun
    exact hSimple hRun
  have hKinds : nextKind tokens = .kwPackage ∨ nextKind tokens = .kwImport
      ∨ nextKind tokens = .kwVar ∨ nextKind tokens = .kwConst ∨ nextKind tokens = .kwFunc
      ∨ nextKind tokens = .kwReturn ∨ nextKind tokens = .kwIf ∨ nextKind tokens = .kwFor
      ∨ nextKind tokens = .comment ∨ nextKind tokens = .blockComment ∨ nextKind tokens = .kwTry
      ∨ nextKind tokens = .kwThrow ∨ nextKind tokens = .kwBreak ∨ nextKind tokens = .kwContinue
      ∨ nextKind tokens = .lbrace := by
    revert hOther hExpr
    cases nextKind tokens <;> decide
  rw [construct, cur_bind] at hRun
  rcases hKinds with hKind | hKind | hKind | hKind | hKind | hKind | hKind | hKind | hKind | hKind
    | hKind | hKind | hKind | hKind | hKind <;> simp only [State.kind_cur_on, hKind] at hRun
  · exact packageStmt_ok hKind hRun
  · exact importStmt_ok hKind hRun
  · exact declStmt_quiet .var hKind hRun hQuiet
  · exact declStmt_quiet .const hKind hRun hQuiet
  · exact h.functionStmt s tokens stmt s' hTrailing hKind hRun hQuiet
  · exact returnStmt_quiet hKind hRun hQuiet
  · obtain ⟨chain, last, more, rfl, rfl, rfl, hFits⟩ :=
      h.ifStmt s tokens stmt s' hTrailing hKind hRun hQuiet
    exact readsStmt_of (.ifElse chain) last more rfl rfl hFits
  · exact h.forStmt s tokens stmt s' hTrailing hKind hRun hQuiet
  · exact comment_ok (hKind ▸ rfl) hRun
  · exact comment_ok (hKind ▸ rfl) hRun
  · exact h.tryStmt s tokens stmt s' hTrailing hKind hRun hQuiet
  · exact throwStmt_quiet hKind hRun hQuiet
  · exact branch_ok (Or.inl hKind) hRun
  · exact branch_ok (Or.inr hKind) hRun
  · obtain ⟨body, last, more, rfl, rfl, rfl, hFits⟩ :=
      h.block s tokens stmt s' hTrailing hKind hRun hQuiet
    exact readsStmt_of (.block body) last more rfl rfl hFits

theorem soundWith_zero : SoundWith 0 where
  statement := nofun
  construct := nofun
  block := nofun
  blockItems := nofun
  ifStmt := nofun
  forStmt := nofun
  loopClauses _ _ _ := nofun
  functionStmt := nofun
  tryStmt := nofun
  catchClauses := nofun
  catchClause := nofun

/-- Every quiet run of the statement parser reads a phrase that fits. -/
theorem soundWith (fuel : Nat) : SoundWith fuel := by
  induction fuel with
  | zero => exact soundWith_zero
  | succ fuel ih =>
      exact {
        statement := sound_statement_succ ih
        construct := sound_construct_succ ih
        block := sound_block_succ ih
        blockItems := sound_blockItems_succ ih
        ifStmt := sound_ifStmt_succ ih
        forStmt := sound_forStmt_succ ih
        loopClauses := sound_loopClauses_succ ih
        functionStmt := sound_functionStmt_succ ih
        tryStmt := sound_tryStmt_succ ih
        catchClauses := sound_catchClauses_succ ih
        catchClause := sound_catchClause_succ ih }

end Backwards

end TryGo.Parse
