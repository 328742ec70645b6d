import TryGo.Proofs.Parse.Simple

/-! The statement parser reads exactly the statement phrases that fit what follows them. -/
namespace TryGo.Parse

/-- A state with more comments waiting for their place. -/
def State.leaving (s : State) (comments : List Token) : State :=
  { s with trailing := s.trailing ++ comments.map commentStmt }

@[simp] theorem State.leaving_nil (s : State) : s.leaving [] = s := by
  simp [State.leaving]

@[simp] theorem State.on_leaving (s : State) (comments tokens : List Token) :
    (s.leaving comments).on tokens = (s.on tokens).leaving comments := rfl

@[simp] theorem State.reports_leaving (s : State) (comments : List Token) :
    (s.leaving comments).reports = s.reports := rfl

/-- Where no comments were waiting, those that a statement left are taken. -/
theorem takeTrailing_bind {s : State} {β : Type} (comments tokens : List Token)
    (f : List Stmt → ParseM β) (hTrailing : s.trailing = []) :
    (takeTrailing >>= f) ((s.on tokens).leaving comments) =
      f (comments.map commentStmt) (s.on tokens) := by
  obtain ⟨cursor, reports, trailing⟩ := s
  obtain rfl : trailing = [] := hTrailing
  rfl

/-- What is left behind is in the state from there on. -/
theorem leaveTrailing_bind (s : State) {β : Type} (comments : List Token)
    (f : Unit → ParseM β) :
    (leaveTrailing (comments.map commentStmt) >>= f) s = f () (s.leaving comments) := rfl

/-- A round of a statement reads one construct, unless a semicolon stands there alone. -/
theorem statement_succ (fuel : Nat) :
    statement (fuel + 1) = (do
      let token ← cur
      if token.kind == .semicolon then
        return none
      else
        let result ← attempt (construct fuel)
        skipSemicolon
        return result) := by
  rw [statement]
  simp only [skipSemicolon, bind_assoc]
  congr 1
  funext token
  congr 1
  congr 1
  funext result
  congr 1
  funext ended
  cases ended <;> simp

/-- The condition of a loop with three clauses, up to the second semicolon. -/
def loopCondition : ParseM Expr := do
  if (← cur).kind == .semicolon then
    return .missing
  else
    let condition ← readExpr
    expect .semicolon
    return condition

instance : Explains loopCondition := by
  unfold loopCondition
  infer_instance

/-- A round of the clauses of a loop reads the condition, the last clause and the block. -/
theorem loopClauses_succ (fuel : Nat) (token : Token) (init : Stmt) :
    loopClauses (fuel + 1) token init = (do
      advance
      let condition ← loopCondition
      advance
      if (← cur).kind == .lbrace then
        return .loop token init condition .missing (← block fuel)
      else
        let update ← attempt simpleStmt
        expect .lbrace
        return .loop token init condition (update.getD .missing) (← block fuel)) := by
  rw [loopClauses, loopCondition]
  simp only [bind_assoc]
  congr 1
  funext _
  congr 1
  funext next
  by_cases hEmpty : (next.kind == .semicolon) = true
  · simp [hEmpty]
  · simp [hEmpty]

/-- How a loop goes on after the simple statement that its header starts with. An expression
before the body is the condition, and everything else the first of three clauses. -/
def afterInit (fuel : Nat) (keyword : Token) : Stmt → Bool → ParseM Stmt
  | .expr _ condition, true => do
      advance
      return .loop keyword .missing condition .missing (← block fuel)
  | init, _ => do
      expect .semicolon
      loopClauses fuel keyword init

/-- Behind a first clause that does not end the header a semicolon is due. -/
theorem afterInit_false (fuel : Nat) (keyword : Token) (init : Stmt) :
    afterInit fuel keyword init false =
      expect .semicolon >>= fun _ => loopClauses fuel keyword init := by
  cases init <;> rfl

/-- A round of a loop reads its first clause, if it has one. -/
theorem forStmt_succ (fuel : Nat) :
    forStmt (fuel + 1) = (do
      let token ← cur
      if ← peekIs .lbrace then
        advance
        return .loop token .missing .missing .missing (← block fuel)
      else
        advance
        if (← cur).kind == .semicolon then
          loopClauses fuel token .missing
        else
          let init ← simpleStmt
          afterInit fuel token init (← peekIs .lbrace)) := by
  rw [forStmt]
  rfl

/-! ### From phrases to runs -/

/-- What reading a statement phrase amounts to. Each token costs at most eight units of
fuel. -/
def ReadAsStmt (phrase : StmtPhrase) : Prop :=
  ∀ (s : State) (fuel : Nat) (more : List Token), s.trailing = [] →
    phrase.Fits (nextKind more) → 8 * phrase.tokens.length ≤ fuel + 1 →
    ∃ last, construct fuel (s.on (phrase.tokens ++ more)) =
      .ok phrase.tree ((s.on (last :: more)).leaving phrase.trailing)

def ReadAsBlock (phrase : BlockPhrase) : Prop :=
  ∀ (s : State) (fuel : Nat) (more : List Token), s.trailing = [] →
    phrase.Fits → 8 * phrase.tokens.length ≤ fuel + 2 →
    ∃ last, block fuel (s.on (phrase.tokens ++ more)) = .ok phrase.tree (s.on (last :: more))

def ReadAsItems (phrase : ItemsPhrase) : Prop :=
  ∀ (s : State) (fuel : Nat) (closing : Mark .rbrace) (more : List Token), s.trailing = [] →
    phrase.Fits .rbrace → 8 * phrase.tokens.length < fuel →
    blockItems fuel (s.on (phrase.tokens ++ closing.val :: more)) =
      .ok phrase.trees (s.on (closing.val :: more))

def ReadAsIf (phrase : IfPhrase) : Prop :=
  ∀ (s : State) (fuel : Nat) (more : List Token), s.trailing = [] →
    phrase.Fits (nextKind more) → 8 * phrase.tokens.length ≤ fuel + 2 →
    ∃ last, ifStmt fuel (s.on (phrase.tokens ++ more)) = .ok phrase.tree (s.on (last :: more))

/-- Catch clauses are read from the token before them, with the comments behind them. -/
def ReadAsCatches (phrase : CatchesPhrase) : Prop :=
  ∀ (s : State) (fuel : Nat) (token : Token) (comments : Comments) (more : List Token),
    s.trailing = [] → phrase.Fits → (nextKind more).isComment = false → nextKind more ≠ .kwCatch →
    8 * phrase.tokens.length < fuel →
    ∃ last, catchClauses fuel (s.on (token :: (phrase.tokens ++ (comments.val ++ more)))) =
      .ok (phrase.trees, comments.val) (s.on (last :: more))

section Forwards

variable {stmt : StmtPhrase} {body alternative : BlockPhrase} {items : ItemsPhrase}
  {chain : IfPhrase} {catches : CatchesPhrase}

/-- A token that starts an expression starts a simple statement. -/
theorem construct_simple (s : State) {fuel : Nat} {tokens : List Token}
    (hKind : nextKind tokens ∈ TokenKind.exprStarts) :
    construct (fuel + 1) (s.on tokens) = simpleStmt (s.on tokens) := by
  rw [construct, cur_bind, State.kind_cur_on]
  generalize nextKind tokens = kind at hKind ⊢
  cases kind <;> first | rfl | exact absurd hKind (by decide)

/-- A package clause is read as it is spelled. -/
theorem readAsStmt_package (keyword : Mark .kwPackage) (name : Mark .ident) :
    ReadAsStmt (.package keyword name) := by
  intro s fuel more _ _ hFuel
  simp only [StmtPhrase.tokens, StmtPhrase.trailing, State.leaving_nil, List.length_cons,
    List.cons_append, List.nil_append] at hFuel ⊢
  obtain ⟨fuel, rfl⟩ : ∃ n, fuel = n + 1 := ⟨fuel - 1, by omega⟩
  refine ⟨name.val, ?_⟩
  rw [construct, cur_bind]
  simp only [State.cur_on_cons, keyword.property]
  rw [packageStmt, cur_bind, expect_bind _ _ _ _ (by exact name.property)]
  rfl

/-- An import of one path is read as it is spelled. -/
theorem readAsStmt_importOne (keyword : Mark .kwImport) (path : Mark .string) :
    ReadAsStmt (.importOne keyword path) := by
  intro s fuel more _ _ hFuel
  simp only [StmtPhrase.tokens, StmtPhrase.trailing, State.leaving_nil, List.length_cons,
    List.cons_append, List.nil_append] at hFuel ⊢
  obtain ⟨fuel, rfl⟩ : ∃ n, fuel = n + 1 := ⟨fuel - 1, by omega⟩
  refine ⟨path.val, ?_⟩
  rw [construct, cur_bind]
  simp only [State.cur_on_cons, keyword.property]
  rw [importStmt, cur_bind, peekIs_bind, State.kind_peek_on_cons,
    if_neg (by simp [path.property]), expect_bind _ _ _ _ (by exact path.property)]
  rfl

/-- A group of imports is read with all of its paths. -/
theorem readAsStmt_importGroup (keyword : Mark .kwImport) (opening : Mark .lparen)
    (paths : PathsPhrase) (closing : Mark .rparen) :
    ReadAsStmt (.importGroup keyword opening paths closing) := by
  intro s fuel more _ _ hFuel
  simp only [StmtPhrase.tokens, StmtPhrase.trailing, State.leaving_nil, List.length_cons,
    List.cons_append, List.nil_append, List.append_assoc] at hFuel ⊢
  obtain ⟨fuel, rfl⟩ : ∃ n, fuel = n + 1 := ⟨fuel - 1, by omega⟩
  have hEnough : paths.tokens.length
      < (opening.val :: (paths.tokens ++ closing.val :: more)).length + 1 := by
    simp only [List.length_cons, List.length_append]
    omega
  obtain ⟨last, hRun⟩ := importPaths_run s closing more paths opening.val _ hEnough
  refine ⟨closing.val, ?_⟩
  rw [construct, cur_bind]
  simp only [State.cur_on_cons, keyword.property]
  rw [importStmt, cur_bind, peekIs_bind, State.kind_peek_on_cons,
    if_pos (by simp [opening.property]), advance_bind, tokensLeft_bind, State.rest_on,
    bind_of_ok hRun, advance_bind]
  rfl

/-- The type of a declaration is read up to what follows it. -/
theorem optionalType_run (s : State) (name : Token) (tokens : List Token)
    (type : Option TypePhrase) (hNone : type = none → nextKind tokens ∉ TokenKind.typeStarts)
    (hSome : ∀ phrase, type = some phrase →
      phrase.isVariadic = false ∧ phrase.Fits (nextKind tokens)) :
    ∃ last, optionalType (s.on (name :: (tokensIf TypePhrase.tokens type ++ tokens))) =
      .ok (type.map TypePhrase.type) (s.on (last :: tokens)) := by
  cases type with
  | none => exact ⟨name, optionalType_none s (hNone rfl)⟩
  | some phrase =>
      obtain ⟨hVariadic, hFits⟩ := hSome phrase rfl
      exact optionalType_some s name tokens phrase hVariadic hFits

theorem map_text_map_type (type : Option TypePhrase) :
    (type.map TypePhrase.type).map GoType.text = type.map fun type => type.type.text := by
  cases type <;> rfl

/-- Both keywords of a declaration lead to one reader. -/
theorem construct_decl (s : State) {fuel : Nat} (kind : DeclKind) (keyword : Mark kind.tokenKind)
    (more : List Token) :
    construct (fuel + 1) (s.on (keyword.val :: more)) =
      declStmt kind (s.on (keyword.val :: more)) := by
  rw [construct, cur_bind]
  simp only [State.cur_on_cons, keyword.property]
  cases kind <;> rfl

/-- A declaration with a value is read up to the end of the value. -/
theorem readAsStmt_declInit (kind : DeclKind) (keyword : Mark kind.tokenKind) (name : Mark .ident)
    (type : Option TypePhrase) (init : InitPhrase) :
    ReadAsStmt (.decl kind keyword name type (some init)) := by
  intro s fuel more _ hFits hFuel
  simp only [StmtPhrase.tokens, StmtPhrase.trailing, State.leaving_nil, List.length_cons,
    List.cons_append, List.append_assoc, tokensIf_some, InitPhrase.tokens] at hFuel ⊢
  obtain ⟨fuel, rfl⟩ : ∃ n, fuel = n + 1 := ⟨fuel - 1, by omega⟩
  obtain ⟨hType, hValue, hLevel⟩ := hFits
  have hOp : nextKind (init.op.val :: (init.value.tokens ++ more)) = .assign := init.op.property
  obtain ⟨last, hRunType⟩ := optionalType_run s name.val
    (init.op.val :: (init.value.tokens ++ more)) type (fun _ => by rw [hOp]; decide)
    (by rw [hOp]; exact hType)
  obtain ⟨last', hRunValue⟩ := readExpr_run s more init.value hValue hLevel
  refine ⟨last', ?_⟩
  rw [construct_decl, declStmt, cur_bind, expect_bind _ _ _ _ (by exact name.property),
    curIdent_bind, bind_of_ok hRunType, map_text_map_type]
  cases kind with
  | const =>
      dsimp only
      rw [expect_bind _ _ _ _ hOp, advance_bind, bind_of_ok hRunValue]
      rfl
  | var =>
      dsimp only
      rw [peekIs_bind, State.kind_peek_on_cons, if_pos (by simp [hOp]), advance_bind, advance_bind,
        bind_of_ok hRunValue]
      rfl

/-- A declaration without a value ends with its type or its name. -/
theorem readAsStmt_declBare (kind : DeclKind) (keyword : Mark kind.tokenKind) (name : Mark .ident)
    (type : Option TypePhrase) : ReadAsStmt (.decl kind keyword name type none) := by
  intro s fuel more _ hFits hFuel
  simp only [StmtPhrase.tokens, StmtPhrase.trailing, State.leaving_nil, List.length_cons,
    List.cons_append, List.append_assoc, tokensIf_none, List.nil_append] at hFuel ⊢
  obtain ⟨fuel, rfl⟩ : ∃ n, fuel = n + 1 := ⟨fuel - 1, by omega⟩
  obtain ⟨hKind, hAssign, hNone, hSome⟩ : kind = .var ∧ nextKind more ≠ .assign
      ∧ (type = none → nextKind more ∉ TokenKind.typeStarts)
      ∧ (∀ phrase, type = some phrase →
        phrase.isVariadic = false ∧ phrase.Fits (nextKind more)) := by
    cases type with
    | none => exact ⟨hFits.1, hFits.2.2, fun _ => hFits.2.1, by rintro _ ⟨⟩⟩
    | some phrase =>
        obtain ⟨hKind, hVariadic, hType, hAssign⟩ := hFits
        exact ⟨hKind, hAssign, by rintro ⟨⟩, by rintro _ ⟨⟩; exact ⟨hVariadic, hType⟩⟩
  obtain ⟨last, hRunType⟩ := optionalType_run s name.val more type hNone hSome
  refine ⟨last, ?_⟩
  rw [construct_decl, declStmt, cur_bind, expect_bind _ _ _ _ (by exact name.property),
    curIdent_bind, bind_of_ok hRunType, map_text_map_type]
  subst hKind
  dsimp only
  rw [peekIs_bind, State.kind_peek_on_cons, if_neg (by simpa using hAssign)]
  rfl

/-- A simple statement is read as it is spelled. -/
theorem readAsStmt_simple (phrase : SimplePhrase) : ReadAsStmt (.simple phrase) := by
  intro s fuel more _ hFits hFuel
  simp only [StmtPhrase.tokens, StmtPhrase.trailing, State.leaving_nil] at hFuel ⊢
  have hPositive := List.length_pos_iff.mpr phrase.tokens_ne_nil
  obtain ⟨fuel, rfl⟩ : ∃ n, fuel = n + 1 := ⟨fuel - 1, by omega⟩
  rw [construct_simple s (phrase.nextKind_mem more)]
  exact simpleStmt_run s more phrase hFits

/-- A return takes the expressions behind it, if there are any. -/
theorem readAsStmt_ret (keyword : Mark .kwReturn) (values : Option ExprsPhrase) :
    ReadAsStmt (.ret keyword values) := by
  intro s fuel more _ hFits hFuel
  simp only [StmtPhrase.tokens, StmtPhrase.trailing, State.leaving_nil, List.length_cons,
    List.cons_append] at hFuel ⊢
  obtain ⟨fuel, rfl⟩ : ∃ n, fuel = n + 1 := ⟨fuel - 1, by omega⟩
  rw [construct, cur_bind]
  simp only [State.cur_on_cons, keyword.property]
  rw [returnStmt, cur_bind, peek_bind, State.kind_peek_on_cons]
  cases values with
  | none =>
      refine ⟨keyword.val, ?_⟩
      rw [tokensIf_none, List.nil_append, if_pos (by simpa [StmtPhrase.Fits] using hFits)]
      rfl
  | some values =>
      obtain ⟨hValues, hLevel, hComma⟩ := hFits
      have hStart := values.nextKind_mem more
      have hBare : nextKind (values.tokens ++ more) ∉ TokenKind.bareReturnFollowers := by
        revert hStart
        cases nextKind (values.tokens ++ more) <;> decide
      obtain ⟨last, hRun⟩ := readExprs_run s more values hValues hLevel hComma
      refine ⟨last, ?_⟩
      rw [tokensIf_some, if_neg (by simpa using hBare), advance_bind, bind_of_ok hRun]
      rfl

/-- A throw is read with the value that follows it. -/
theorem readAsStmt_throw (keyword : Mark .kwThrow) (value : ExprPhrase) :
    ReadAsStmt (.throw keyword value) := by
  intro s fuel more _ hFits hFuel
  simp only [StmtPhrase.tokens, StmtPhrase.trailing, State.leaving_nil, List.length_cons,
    List.cons_append] at hFuel ⊢
  obtain ⟨fuel, rfl⟩ : ∃ n, fuel = n + 1 := ⟨fuel - 1, by omega⟩
  obtain ⟨last, hRun⟩ := requireExpr_run s more value hFits.1 hFits.2
  refine ⟨last, ?_⟩
  rw [construct, cur_bind]
  simp only [State.cur_on_cons, keyword.property]
  rw [throwStmt, cur_bind, advance_bind, bind_of_ok hRun]
  rfl

/-- A branch is its keyword. -/
theorem readAsStmt_branch (token : Token)
    (hKind : token.kind = .kwBreak ∨ token.kind = .kwContinue) :
    ReadAsStmt (.branch token hKind) := by
  intro s fuel more _ _ hFuel
  simp only [StmtPhrase.tokens, StmtPhrase.trailing, State.leaving_nil, List.length_cons,
    List.cons_append, List.nil_append] at hFuel ⊢
  obtain ⟨fuel, rfl⟩ : ∃ n, fuel = n + 1 := ⟨fuel - 1, by omega⟩
  refine ⟨token, ?_⟩
  rw [construct, cur_bind, State.cur_on_cons]
  rcases hKind with hKind | hKind <;> simp only [hKind] <;> rfl

/-- A comment is a statement of its own. -/
theorem readAsStmt_comment (token : Token) (hKind : token.kind.isComment = true) :
    ReadAsStmt (.comment token hKind) := by
  intro s fuel more _ _ hFuel
  simp only [StmtPhrase.tokens, StmtPhrase.trailing, State.leaving_nil, List.length_cons,
    List.cons_append, List.nil_append] at hFuel ⊢
  obtain ⟨fuel, rfl⟩ : ∃ n, fuel = n + 1 := ⟨fuel - 1, by omega⟩
  refine ⟨token, ?_⟩
  rw [construct, cur_bind, State.cur_on_cons]
  rcases TokenKind.cases_of_isComment hKind with hKind | hKind <;> simp only [hKind] <;> rfl

/-- A block is read up to the brace that closes it. -/
theorem readAsBlock_mk (opening : Mark .lbrace) (closing : Mark .rbrace)
    (hItems : ReadAsItems items) : ReadAsBlock (.mk opening items closing) := by
  intro s fuel more hTrailing hFits hFuel
  simp only [BlockPhrase.tokens, List.length_cons, List.length_append, List.length_nil,
    List.cons_append, List.append_assoc, List.nil_append] at hFuel ⊢
  obtain ⟨fuel, rfl⟩ : ∃ n, fuel = n + 1 := ⟨fuel - 1, by omega⟩
  refine ⟨closing.val, ?_⟩
  rw [block, cur_bind, advance_bind,
    bind_of_ok (hItems s fuel closing more hTrailing hFits (by omega))]
  rfl

/-- A statement is read with the semicolon behind it. -/
theorem statement_run (hStmt : ReadAsStmt stmt) (s : State) (fuel : Nat)
    (semicolon : Option (Mark .semicolon)) (more : List Token) (hTrailing : s.trailing = [])
    (hFits : stmt.Fits (nextKind (tokensIf (fun mark => [mark.val]) semicolon ++ more)))
    (hNext : semicolon = none → nextKind more ≠ .semicolon)
    (hFuel : 8 * stmt.tokens.length ≤ fuel) :
    ∃ last, statement fuel
        (s.on (stmt.tokens ++ (tokensIf (fun mark => [mark.val]) semicolon ++ more))) =
      .ok (some stmt.tree) ((s.on (last :: more)).leaving stmt.trailing) := by
  have hPositive := List.length_pos_iff.mpr stmt.tokens_ne_nil
  obtain ⟨fuel, rfl⟩ : ∃ n, fuel = n + 1 := ⟨fuel - 1, by omega⟩
  obtain ⟨last, hRun⟩ := hStmt s fuel _ hTrailing hFits (by omega)
  have hAttempt : attempt (construct fuel)
      (s.on (stmt.tokens ++ (tokensIf (fun mark => [mark.val]) semicolon ++ more))) =
      .ok (some stmt.tree) ((s.leaving stmt.trailing).on
        (last :: (tokensIf (fun mark => [mark.val]) semicolon ++ more))) := by
    simp [attempt, hRun]
  obtain ⟨last', hSemicolon⟩ := skipSemicolon_run (s.leaving stmt.trailing) last semicolon more hNext
  have hStart : nextKind (stmt.tokens ++ (tokensIf (fun mark => [mark.val]) semicolon ++ more))
      ≠ .semicolon := stmt.nextKind_ne (by decide) _
  refine ⟨last', ?_⟩
  rw [statement_succ, cur_bind, State.kind_cur_on, if_neg (by simpa using hStart),
    bind_of_ok hAttempt, bind_of_ok hSemicolon]
  rfl

/-- A semicolon by itself is no statement. -/
theorem statement_semicolon (s : State) (fuel : Nat) (mark : Mark .semicolon)
    (more : List Token) :
    statement (fuel + 1) (s.on (mark.val :: more)) = .ok none (s.on (mark.val :: more)) := by
  rw [statement_succ, cur_bind, State.cur_on_cons, if_pos (by simp [mark.property])]
  rfl

/-- Where a block ends nothing more is read. -/
theorem readAsItems_nil : ReadAsItems .nil := by
  intro s fuel closing more _ _ hFuel
  obtain ⟨fuel, rfl⟩ : ∃ n, fuel = n + 1 := ⟨fuel - 1, by omega⟩
  rw [ItemsPhrase.tokens, List.nil_append, blockItems, cur_bind, State.cur_on_cons,
    if_pos (by simp [closing.property])]
  rfl

/-- The step that a list of statements takes over one of its members. -/
theorem blockItems_step (s : State) (fuel : Nat) (comments : List Token)
    {tokens more : List Token} {last : Token} {result : Option Stmt} (hTrailing : s.trailing = [])
    (hStart : nextKind tokens ≠ .rbrace) (hEof : nextKind tokens ≠ .eof)
    (hRun : statement fuel (s.on tokens) = .ok result ((s.on (last :: more)).leaving comments)) :
    blockItems (fuel + 1) (s.on tokens) =
      (blockItems fuel >>= fun rest =>
        pure (result.toList ++ comments.map commentStmt ++ rest)) (s.on more) := by
  rw [blockItems, cur_bind, State.kind_cur_on, if_neg (by simpa using hStart),
    if_neg (by simpa using hEof), bind_of_ok hRun, takeTrailing_bind _ _ _ hTrailing, advance_bind]

/-- Semicolons between statements are skipped. -/
theorem readAsItems_semicolon (mark : Mark .semicolon) (hItems : ReadAsItems items) :
    ReadAsItems (.semicolon mark items) := by
  intro s fuel closing more hTrailing hFits hFuel
  simp only [ItemsPhrase.tokens, List.length_cons, List.cons_append] at hFuel ⊢
  obtain ⟨fuel, rfl⟩ : ∃ n, fuel = n + 2 := ⟨fuel - 2, by omega⟩
  have hStep := blockItems_step s (fuel + 1) [] hTrailing
    (by rw [nextKind_cons, mark.property]; decide) (by rw [nextKind_cons, mark.property]; decide)
    ((statement_semicolon s fuel mark (items.tokens ++ closing.val :: more)).trans
      (by rw [State.leaving_nil]))
  rw [hStep, bind_of_ok (hItems s (fuel + 1) closing more hTrailing hFits (by omega))]
  rfl

/-- A statement is read together with a semicolon behind it. -/
theorem readAsItems_cons (semicolon : Option (Mark .semicolon)) (hStmt : ReadAsStmt stmt)
    (hItems : ReadAsItems items) : ReadAsItems (.cons stmt semicolon items) := by
  intro s fuel closing more hTrailing hFits hFuel
  simp only [ItemsPhrase.tokens, List.length_append, List.append_assoc] at hFuel ⊢
  have hPositive := List.length_pos_iff.mpr stmt.tokens_ne_nil
  have hClosing : nextKind (closing.val :: more) = .rbrace := closing.property
  obtain ⟨fuel, rfl⟩ : ∃ n, fuel = n + 1 := ⟨fuel - 1, by omega⟩
  obtain ⟨hStmtFits, hNext, hItemsFit⟩ : stmt.Fits (nextKind
        (tokensIf (fun mark => [mark.val]) semicolon ++ (items.tokens ++ closing.val :: more)))
      ∧ (semicolon = none → nextKind (items.tokens ++ closing.val :: more) ≠ .semicolon)
      ∧ items.Fits .rbrace := by
    cases semicolon with
    | some mark =>
        refine ⟨?_, nofun, hFits.2⟩
        rw [tokensIf_some, List.singleton_append, nextKind_cons, mark.property]
        exact hFits.1
    | none =>
        rw [tokensIf_none, List.nil_append, nextKind_append, hClosing]
        exact ⟨hFits.1, fun _ => hFits.2.1, hFits.2.2⟩
  obtain ⟨last, hRun⟩ := statement_run hStmt s fuel semicolon _ hTrailing hStmtFits hNext (by omega)
  rw [blockItems_step s fuel stmt.trailing hTrailing (stmt.nextKind_ne (by decide) _)
    (stmt.nextKind_ne (by decide) _) hRun,
    bind_of_ok (hItems s fuel closing more hTrailing hItemsFit (by omega))]
  simp [ItemsPhrase.trees]

theorem readAsStmt_block (hBody : ReadAsBlock body) : ReadAsStmt (.block body) := by
  intro s fuel more hTrailing hFits hFuel
  simp only [StmtPhrase.tokens, StmtPhrase.trailing, State.leaving_nil] at hFuel ⊢
  have hPositive := List.length_pos_iff.mpr (StmtPhrase.block body).tokens_ne_nil
  rw [StmtPhrase.tokens] at hPositive
  obtain ⟨fuel, rfl⟩ : ∃ n, fuel = n + 1 := ⟨fuel - 1, by omega⟩
  rw [construct, cur_bind]
  simp only [State.kind_cur_on, body.nextKind_tokens]
  exact hBody s fuel more hTrailing hFits (by omega)

theorem readAsStmt_ifElse (hChain : ReadAsIf chain) : ReadAsStmt (.ifElse chain) := by
  intro s fuel more hTrailing hFits hFuel
  simp only [StmtPhrase.tokens, StmtPhrase.trailing, State.leaving_nil] at hFuel ⊢
  have hPositive := List.length_pos_iff.mpr (StmtPhrase.ifElse chain).tokens_ne_nil
  rw [StmtPhrase.tokens] at hPositive
  obtain ⟨fuel, rfl⟩ : ∃ n, fuel = n + 1 := ⟨fuel - 1, by omega⟩
  rw [construct, cur_bind]
  simp only [State.kind_cur_on, chain.nextKind_tokens]
  exact hChain s fuel more hTrailing hFits (by omega)

/-- A conditional is read up to the end of its consequence. -/
theorem ifStmt_consequence (keyword : Mark .kwIf) (condition : ExprPhrase)
    (hCondition : condition.Levelled TokenKind.level) (hBody : ReadAsBlock body)
    (s : State) (fuel : Nat) (more : List Token) (hTrailing : s.trailing = [])
    (hFits : body.Fits) (hFuel : 8 * body.tokens.length ≤ fuel + 2) :
    ∃ last, ifStmt (fuel + 1)
        (s.on (keyword.val :: (condition.tokens ++ (body.tokens ++ more)))) =
      (peekIs .kwElse >>= fun otherwise =>
        if otherwise then
          advance >>= fun _ => peekIs .kwIf >>= fun chained =>
            if chained then
              advance >>= fun _ => ifStmt fuel >>= fun alternative =>
                pure (.ifElse keyword.val condition.tree body.tree alternative)
            else
              expect .lbrace >>= fun _ => block fuel >>= fun alternative =>
                pure (.ifElse keyword.val condition.tree body.tree alternative)
        else pure (.ifElse keyword.val condition.tree body.tree .missing))
        (s.on (last :: more)) := by
  have hOpening := body.nextKind_tokens more
  obtain ⟨last, hRunCondition⟩ := readExpr_run s (body.tokens ++ more) condition hCondition
    (by rw [hOpening]; decide)
  obtain ⟨last', hRunBody⟩ := hBody s fuel more hTrailing hFits hFuel
  refine ⟨last', ?_⟩
  rw [ifStmt, cur_bind, advance_bind, bind_of_ok hRunCondition, expect_bind _ _ _ _ hOpening,
    bind_of_ok hRunBody]
  rfl

/-- A conditional without an alternative ends with its block. -/
theorem readAsIf_plain (keyword : Mark .kwIf) (condition : ExprPhrase)
    (hBody : ReadAsBlock body) : ReadAsIf (.plain keyword condition body) := by
  intro s fuel more hTrailing hFits hFuel
  obtain ⟨hCondition, hBodyFits, hElse⟩ := hFits
  simp only [IfPhrase.tokens, List.length_cons, List.length_append, List.cons_append,
    List.append_assoc] at hFuel ⊢
  obtain ⟨fuel, rfl⟩ : ∃ n, fuel = n + 1 := ⟨fuel - 1, by omega⟩
  obtain ⟨last, hRun⟩ := ifStmt_consequence keyword condition hCondition hBody s fuel more
    hTrailing hBodyFits (by omega)
  refine ⟨last, ?_⟩
  rw [hRun, peekIs_bind, State.kind_peek_on_cons, if_neg (by simpa using hElse)]
  rfl

/-- An alternative that is a conditional goes on with the chain. -/
theorem readAsIf_elseIf (keyword : Mark .kwIf) (condition : ExprPhrase)
    (otherwise : Mark .kwElse) (hBody : ReadAsBlock body) (hChain : ReadAsIf chain) :
    ReadAsIf (.elseIf keyword condition body otherwise chain) := by
  intro s fuel more hTrailing hFits hFuel
  obtain ⟨hCondition, hBodyFits, hChainFits⟩ := hFits
  simp only [IfPhrase.tokens, List.length_cons, List.length_append, List.cons_append,
    List.append_assoc] at hFuel ⊢
  obtain ⟨fuel, rfl⟩ : ∃ n, fuel = n + 1 := ⟨fuel - 1, by omega⟩
  obtain ⟨last, hRun⟩ := ifStmt_consequence keyword condition hCondition hBody s fuel
    (otherwise.val :: (chain.tokens ++ more)) hTrailing hBodyFits (by omega)
  obtain ⟨last', hRunChain⟩ := hChain s fuel more hTrailing hChainFits (by omega)
  refine ⟨last', ?_⟩
  rw [hRun, peekIs_bind, State.kind_peek_on_cons, if_pos (by simp [otherwise.property]),
    advance_bind, peekIs_bind, State.kind_peek_on_cons, if_pos (by simp [chain.nextKind_tokens]),
    advance_bind, bind_of_ok hRunChain]
  rfl

/-- An alternative that is a block ends the chain. -/
theorem readAsIf_elseBlock (keyword : Mark .kwIf) (condition : ExprPhrase)
    (otherwise : Mark .kwElse) (hBody : ReadAsBlock body) (hAlternative : ReadAsBlock alternative) :
    ReadAsIf (.elseBlock keyword condition body otherwise alternative) := by
  intro s fuel more hTrailing hFits hFuel
  obtain ⟨hCondition, hBodyFits, hAlternativeFits⟩ := hFits
  simp only [IfPhrase.tokens, List.length_cons, List.length_append, List.cons_append,
    List.append_assoc] at hFuel ⊢
  obtain ⟨fuel, rfl⟩ : ∃ n, fuel = n + 1 := ⟨fuel - 1, by omega⟩
  obtain ⟨last, hRun⟩ := ifStmt_consequence keyword condition hCondition hBody s fuel
    (otherwise.val :: (alternative.tokens ++ more)) hTrailing hBodyFits (by omega)
  obtain ⟨last', hRunBlock⟩ := hAlternative s fuel more hTrailing hAlternativeFits (by omega)
  have hOpening := alternative.nextKind_tokens more
  refine ⟨last', ?_⟩
  rw [hRun, peekIs_bind, State.kind_peek_on_cons, if_pos (by simp [otherwise.property]),
    advance_bind, peekIs_bind, State.kind_peek_on_cons, if_neg (by simp [hOpening]),
    expect_bind _ _ _ _ hOpening, bind_of_ok hRunBlock]
  rfl

/-- A function is read with its parameters, its results and its body. -/
theorem readAsStmt_func (keyword : Mark .kwFunc) (name : Mark .ident) (opening : Mark .lparen)
    (params : Option ParamsPhrase) (closing : Mark .rparen) (result : ResultPhrase)
    (hBody : ReadAsBlock body) :
    ReadAsStmt (.func keyword name opening params closing result body) := by
  intro s fuel more hTrailing hFits hFuel
  obtain ⟨hParams, hResult, hBodyFits⟩ := hFits
  simp only [StmtPhrase.tokens, StmtPhrase.trailing, State.leaving_nil, List.length_cons,
    List.length_append, List.cons_append, List.append_assoc] at hFuel ⊢
  obtain ⟨fuel, rfl⟩ : ∃ n, fuel = n + 2 := ⟨fuel - 2, by omega⟩
  have hOpening := body.nextKind_tokens more
  have hRunParams := readParameters_run s opening.val (result.tokens ++ (body.tokens ++ more))
    closing params hParams
  obtain ⟨last, hRunResult⟩ := readResult_run s closing.val (body.tokens ++ more) result hResult
    hOpening
  obtain ⟨last', hRunBody⟩ := hBody s fuel more hTrailing hBodyFits (by omega)
  refine ⟨last', ?_⟩
  rw [construct, cur_bind]
  simp only [State.cur_on_cons, keyword.property]
  rw [functionStmt, cur_bind, expect_bind _ _ _ _ (by exact name.property), curIdent_bind,
    expect_bind _ _ _ _ (by exact opening.property), bind_of_ok hRunParams,
    bind_of_ok hRunResult, expect_bind _ _ _ _ hOpening, bind_of_ok hRunBody]
  rfl

/-- The condition of a loop is read up to the second semicolon, and may be absent. -/
theorem loopCondition_run (s : State) (condition : Option ExprPhrase) (second : Mark .semicolon)
    (more : List Token)
    (hCondition : ∀ phrase, condition = some phrase → phrase.Levelled TokenKind.level) :
    loopCondition (s.on (tokensIf ExprPhrase.tokens condition ++ second.val :: more)) =
      .ok ((condition.map ExprPhrase.tree).getD .missing) (s.on (second.val :: more)) := by
  have hSecond : nextKind (second.val :: more) = .semicolon := second.property
  cases condition with
  | none =>
      rw [tokensIf_none, List.nil_append, loopCondition, cur_bind, State.kind_cur_on,
        if_pos (by simp [hSecond])]
      rfl
  | some phrase =>
      obtain ⟨last, hRun⟩ := readExpr_run s (second.val :: more) phrase (hCondition phrase rfl)
        (by rw [hSecond]; decide)
      have hStart : nextKind (phrase.tokens ++ second.val :: more) ≠ .semicolon :=
        phrase.nextKind_ne (by decide) _
      rw [tokensIf_some, loopCondition, cur_bind, State.kind_cur_on,
        if_neg (by simpa using hStart), bind_of_ok hRun, expect_bind _ _ _ _ hSecond]
      rfl

/-- The clauses after the first one are read with the body. -/
theorem loopClauses_run (token : Token) (initTree : Stmt) (first second : Mark .semicolon)
    (condition : Option ExprPhrase) (update : Option SimplePhrase) (hBody : ReadAsBlock body)
    (s : State) (fuel : Nat) (more : List Token) (hTrailing : s.trailing = [])
    (hCondition : ∀ phrase, condition = some phrase → phrase.Levelled TokenKind.level)
    (hUpdate : ∀ phrase, update = some phrase → phrase.Fits .lbrace) (hFits : body.Fits)
    (hFuel : 8 * body.tokens.length ≤ fuel + 2) :
    ∃ last, loopClauses (fuel + 1) token initTree
        (s.on (first.val :: (tokensIf ExprPhrase.tokens condition ++ second.val
          :: (tokensIf SimplePhrase.tokens update ++ (body.tokens ++ more))))) =
      .ok (.loop token initTree ((condition.map ExprPhrase.tree).getD .missing)
        ((update.map SimplePhrase.tree).getD .missing) body.tree) (s.on (last :: more)) := by
  have hOpening := body.nextKind_tokens more
  have hRunCondition := loopCondition_run s condition second
    (tokensIf SimplePhrase.tokens update ++ (body.tokens ++ more)) hCondition
  obtain ⟨last, hRunBody⟩ := hBody s fuel more hTrailing hFits hFuel
  refine ⟨last, ?_⟩
  rw [loopClauses_succ, advance_bind, bind_of_ok hRunCondition, advance_bind, cur_bind,
    State.kind_cur_on]
  cases update with
  | none =>
      rw [tokensIf_none, List.nil_append, if_pos (by simp [hOpening]), bind_of_ok hRunBody]
      rfl
  | some phrase =>
      obtain ⟨last', hRunUpdate⟩ := simpleStmt_run s (body.tokens ++ more) phrase
        (by rw [hOpening]; exact hUpdate phrase rfl)
      have hAttempt : attempt simpleStmt (s.on (phrase.tokens ++ (body.tokens ++ more))) =
          .ok (some phrase.tree) (s.on (last' :: (body.tokens ++ more))) := by
        simp [attempt, hRunUpdate]
      have hStart : nextKind (phrase.tokens ++ (body.tokens ++ more)) ≠ .lbrace := by
        have hMem := phrase.nextKind_mem (body.tokens ++ more)
        intro hEq
        rw [hEq] at hMem
        exact absurd hMem (by decide)
      rw [tokensIf_some, if_neg (by simpa using hStart), bind_of_ok hAttempt,
        expect_bind _ _ _ _ hOpening, bind_of_ok hRunBody]
      rfl

/-- A loop whose block comes first has no condition. -/
theorem forStmt_endless (keyword : Mark .kwFor) (hBody : ReadAsBlock body) (s : State) (fuel : Nat)
    (more : List Token) (hTrailing : s.trailing = []) (hFits : body.Fits)
    (hFuel : 8 * body.tokens.length ≤ fuel + 2) :
    ∃ last, forStmt (fuel + 1) (s.on (keyword.val :: (body.tokens ++ more))) =
      .ok (.loop keyword.val .missing .missing .missing body.tree) (s.on (last :: more)) := by
  obtain ⟨last, hRunBody⟩ := hBody s fuel more hTrailing hFits hFuel
  refine ⟨last, ?_⟩
  rw [forStmt_succ, cur_bind, peekIs_bind, State.kind_peek_on_cons,
    if_pos (by simp [body.nextKind_tokens]), advance_bind, bind_of_ok hRunBody]
  rfl

/-- A loop whose header starts with a simple statement reads it first. -/
theorem forStmt_simple (keyword : Mark .kwFor) (phrase : SimplePhrase) (s : State) (fuel : Nat)
    (more : List Token) (hFits : phrase.Fits (nextKind more)) :
    ∃ last, forStmt (fuel + 1) (s.on (keyword.val :: (phrase.tokens ++ more))) =
      afterInit fuel keyword.val phrase.tree (nextKind more == .lbrace) (s.on (last :: more)) := by
  have hMem := phrase.nextKind_mem more
  obtain ⟨hBrace, hSemicolon⟩ : nextKind (phrase.tokens ++ more) ≠ .lbrace
      ∧ nextKind (phrase.tokens ++ more) ≠ .semicolon := by
    revert hMem
    cases nextKind (phrase.tokens ++ more) <;> decide
  obtain ⟨last, hRun⟩ := simpleStmt_run s more phrase hFits
  refine ⟨last, ?_⟩
  rw [forStmt_succ, cur_bind, peekIs_bind, State.kind_peek_on_cons,
    if_neg (by simpa using hBrace), advance_bind, cur_bind, State.kind_cur_on,
    if_neg (by simpa using hSemicolon), bind_of_ok hRun, peekIs_bind, State.kind_peek_on_cons,
    State.cur_on_cons]

/-- A loop with a single expression is read as one with a condition only. -/
theorem forStmt_while (keyword : Mark .kwFor) (condition : ExprPhrase)
    (hCondition : condition.Levelled TokenKind.level) (hBody : ReadAsBlock body) (s : State)
    (fuel : Nat) (more : List Token) (hTrailing : s.trailing = []) (hFits : body.Fits)
    (hFuel : 8 * body.tokens.length ≤ fuel + 2) :
    ∃ last, forStmt (fuel + 1) (s.on (keyword.val :: (condition.tokens ++ (body.tokens ++ more)))) =
      .ok (.loop keyword.val .missing condition.tree .missing body.tree) (s.on (last :: more)) := by
  have hOpening := body.nextKind_tokens more
  obtain ⟨last, hRunHeader⟩ := forStmt_simple keyword (.expr condition) s fuel (body.tokens ++ more)
    (by rw [hOpening]; exact ⟨hCondition, by decide, by decide⟩)
  obtain ⟨last', hRunBody⟩ := hBody s fuel more hTrailing hFits hFuel
  refine ⟨last', ?_⟩
  rw [SimplePhrase.tokens] at hRunHeader
  rw [hRunHeader, hOpening, SimplePhrase.tree, beq_self_eq_true, afterInit, advance_bind,
    bind_of_ok hRunBody]
  rfl

/-- A loop with semicolons is read in three parts. -/
theorem forStmt_clauses (keyword : Mark .kwFor) (init : Option SimplePhrase)
    (first second : Mark .semicolon) (condition : Option ExprPhrase)
    (update : Option SimplePhrase) (hBody : ReadAsBlock body) (s : State) (fuel : Nat)
    (more : List Token) (hTrailing : s.trailing = [])
    (hHeader : (LoopPhrase.clauses init first condition second update).Fits) (hFits : body.Fits)
    (hFuel : 8 * body.tokens.length ≤ fuel + 2) :
    ∃ last, forStmt (fuel + 2) (s.on (keyword.val :: (tokensIf SimplePhrase.tokens init
        ++ first.val :: (tokensIf ExprPhrase.tokens condition ++ second.val
          :: (tokensIf SimplePhrase.tokens update ++ (body.tokens ++ more)))))) =
      .ok (.loop keyword.val ((init.map SimplePhrase.tree).getD .missing)
        ((condition.map ExprPhrase.tree).getD .missing)
        ((update.map SimplePhrase.tree).getD .missing) body.tree) (s.on (last :: more)) := by
  obtain ⟨hInit, hCondition, hUpdate⟩ := hHeader
  obtain ⟨last, hRun⟩ := loopClauses_run keyword.val ((init.map SimplePhrase.tree).getD .missing)
    first second condition update hBody s fuel more hTrailing hCondition hUpdate hFits hFuel
  have hFirst : ∀ tokens, nextKind (first.val :: tokens) = .semicolon := fun _ => first.property
  refine ⟨last, ?_⟩
  cases init with
  | none =>
      rw [tokensIf_none, List.nil_append, forStmt_succ, cur_bind, peekIs_bind,
        State.kind_peek_on_cons, if_neg (by simp [hFirst]), advance_bind, cur_bind,
        State.kind_cur_on, if_pos (by simp [hFirst])]
      exact hRun
  | some phrase =>
      obtain ⟨last', hRunHeader⟩ := forStmt_simple keyword phrase s (fuel + 1)
        (first.val :: (tokensIf ExprPhrase.tokens condition ++ second.val
          :: (tokensIf SimplePhrase.tokens update ++ (body.tokens ++ more))))
        (by rw [hFirst]; exact hInit phrase rfl)
      rw [tokensIf_some, hRunHeader, hFirst]
      rw [show (TokenKind.semicolon == .lbrace) = false from rfl, afterInit_false,
        expect_bind _ _ _ _ (hFirst _)]
      exact hRun

theorem readAsStmt_loop (keyword : Mark .kwFor) (header : LoopPhrase) (hBody : ReadAsBlock body) :
    ReadAsStmt (.loop keyword header body) := by
  intro s fuel more hTrailing hFits hFuel
  obtain ⟨hHeader, hBodyFits⟩ := hFits
  simp only [StmtPhrase.tokens, StmtPhrase.trailing, State.leaving_nil, List.length_cons,
    List.length_append, List.cons_append, List.append_assoc] at hFuel ⊢
  obtain ⟨fuel, rfl⟩ : ∃ n, fuel = n + 3 := ⟨fuel - 3, by omega⟩
  rw [construct, cur_bind]
  simp only [State.cur_on_cons, keyword.property]
  cases header with
  | endless => exact forStmt_endless keyword hBody s (fuel + 1) more hTrailing hBodyFits (by omega)
  | whileTrue condition =>
      exact forStmt_while keyword condition hHeader hBody s (fuel + 1) more hTrailing hBodyFits
        (by omega)
  | clauses init first condition second update =>
      simp only [LoopPhrase.tokens, List.append_assoc, List.cons_append]
      exact forStmt_clauses keyword init first second condition update hBody s fuel more hTrailing
        hHeader hBodyFits (by omega)

def catchTree (keyword : Token) (body : Stmt) : Option BindingPhrase → Stmt
  | none => .catchClause keyword .missing none body
  | some binding =>
      .catchClause keyword (.ident binding.name.val binding.name.val.literal)
        (binding.type.map fun type => type.type.text) body

/-- A clause comes in front of those behind it. -/
theorem catchesPhrase_trees_cons (comments : Comments) (keyword : Mark .kwCatch)
    (binding : Option BindingPhrase) (body : BlockPhrase) (rest : CatchesPhrase) :
    (CatchesPhrase.cons comments keyword binding body rest).trees =
      catchTree keyword.val body.tree binding :: rest.trees := by
  cases binding <;> rfl

/-- A catch clause is read with what it binds and its block. -/
theorem catchClause_run (keyword : Mark .kwCatch) (binding : Option BindingPhrase)
    (hBody : ReadAsBlock body) (s : State) (fuel : Nat) (more : List Token)
    (hTrailing : s.trailing = []) (hBinding : ∀ phrase, binding = some phrase → phrase.Fits)
    (hFits : body.Fits) (hFuel : 8 * body.tokens.length ≤ fuel + 2) :
    ∃ last, catchClause (fuel + 1)
        (s.on (keyword.val :: (tokensIf BindingPhrase.tokens binding ++ (body.tokens ++ more)))) =
      .ok (catchTree keyword.val body.tree binding) (s.on (last :: more)) := by
  have hOpening := body.nextKind_tokens more
  obtain ⟨last, hRunBody⟩ := hBody s fuel more hTrailing hFits hFuel
  refine ⟨last, ?_⟩
  rw [catchClause, cur_bind, peekIs_bind, State.kind_peek_on_cons]
  cases binding with
  | none =>
      rw [tokensIf_none, List.nil_append, if_neg (by simp [hOpening]),
        expect_bind _ _ _ _ hOpening, bind_of_ok hRunBody]
      rfl
  | some binding =>
      obtain ⟨opening, name, type, closing⟩ := binding
      have hClosing : nextKind (closing.val :: (body.tokens ++ more)) = .rparen := closing.property
      simp only [tokensIf_some, BindingPhrase.tokens, List.cons_append, List.append_assoc,
        List.nil_append]
      rw [if_pos (by simp [opening.property]), advance_bind,
        expect_bind _ _ _ _ (by exact name.property), curIdent_bind, peekIs_bind,
        State.kind_peek_on_cons]
      cases type with
      | none =>
          rw [tokensIf_none, List.nil_append, if_pos (by simp [hClosing]), advance_bind,
            expect_bind _ _ _ _ hOpening, bind_of_ok hRunBody]
          rfl
      | some type =>
          have hStart : nextKind (type.tokens ++ closing.val :: (body.tokens ++ more)) ≠ .rparen :=
            type.nextKind_ne (by decide) (by decide) _
          obtain ⟨last', hRunType⟩ := readType_run s (closing.val :: (body.tokens ++ more)) type
            (by rw [hClosing]; exact hBinding _ rfl type rfl)
          rw [tokensIf_some, if_neg (by simpa using hStart), advance_bind, bind_of_ok hRunType,
            expect_bind _ _ _ _ hClosing, expect_bind _ _ _ _ hOpening, bind_of_ok hRunBody]
          rfl

/-- Where no clause follows nothing is read. -/
theorem readAsCatches_nil : ReadAsCatches .nil := by
  intro s fuel token comments more _ _ hNext hCatch hFuel
  obtain ⟨fuel, rfl⟩ : ∃ n, fuel = n + 1 := ⟨fuel - 1, by omega⟩
  obtain ⟨last, hSkip⟩ := skipComments_run s token comments more hNext
  refine ⟨last, ?_⟩
  rw [CatchesPhrase.tokens, List.nil_append, catchClauses, bind_of_ok hSkip, peekIs_bind,
    State.kind_peek_on_cons, if_neg (by simpa using hCatch)]
  rfl

/-- Comments in front of a clause are skipped. -/
theorem readAsCatches_cons (comments : Comments) (keyword : Mark .kwCatch)
    (binding : Option BindingPhrase) (hBody : ReadAsBlock body) (hCatches : ReadAsCatches catches) :
    ReadAsCatches (.cons comments keyword binding body catches) := by
  intro s fuel token comments' more hTrailing hFits hNext hCatch hFuel
  obtain ⟨hBinding, hBodyFits, hCatchesFit⟩ := hFits
  simp only [CatchesPhrase.tokens, List.length_append, List.length_cons, List.append_assoc,
    List.cons_append] at hFuel ⊢
  obtain ⟨fuel, rfl⟩ : ∃ n, fuel = n + 2 := ⟨fuel - 2, by omega⟩
  have hKeyword : ∀ tokens, nextKind (keyword.val :: tokens) = .kwCatch :=
    fun _ => keyword.property
  obtain ⟨last, hSkip⟩ := skipComments_run s token comments (keyword.val
    :: (tokensIf BindingPhrase.tokens binding
      ++ (body.tokens ++ (catches.tokens ++ (comments'.val ++ more))))) (by rw [hKeyword]; rfl)
  obtain ⟨last', hRunClause⟩ := catchClause_run keyword binding hBody s fuel
    (catches.tokens ++ (comments'.val ++ more)) hTrailing hBinding hBodyFits (by omega)
  have hAttempt : attempt (catchClause (fuel + 1)) (s.on (keyword.val
      :: (tokensIf BindingPhrase.tokens binding
        ++ (body.tokens ++ (catches.tokens ++ (comments'.val ++ more)))))) =
      .ok (some (catchTree keyword.val body.tree binding))
        (s.on (last' :: (catches.tokens ++ (comments'.val ++ more)))) := by
    simp [attempt, hRunClause]
  obtain ⟨last'', hRunRest⟩ := hCatches s (fuel + 1) last' comments' more hTrailing hCatchesFit hNext
    hCatch (by omega)
  refine ⟨last'', ?_⟩
  rw [catchClauses, bind_of_ok hSkip, peekIs_bind, State.kind_peek_on_cons,
    if_pos (by simp [hKeyword]), advance_bind, bind_of_ok hAttempt, bind_of_ok hRunRest,
    catchesPhrase_trees_cons]
  rfl

/-- A try statement is read up to the end of its catch clauses and the comments there. -/
theorem tryStmt_catches (keyword : Mark .kwTry) (comments : Comments) (hBody : ReadAsBlock body)
    (hCatches : ReadAsCatches catches) (s : State) (fuel : Nat) (more : List Token)
    (hTrailing : s.trailing = []) (hBodyFits : body.Fits) (hCatchesFit : catches.Fits)
    (hNext : (nextKind more).isComment = false) (hCatch : nextKind more ≠ .kwCatch)
    (hBodyFuel : 8 * body.tokens.length ≤ fuel + 2)
    (hCatchesFuel : 8 * catches.tokens.length < fuel) :
    ∃ last, tryStmt (fuel + 1)
        (s.on (keyword.val :: (body.tokens ++ (catches.tokens ++ (comments.val ++ more))))) =
      (peekIs .kwFinally >>= fun lastly =>
        if lastly then
          advance >>= fun _ => expect .lbrace >>= fun _ => block fuel >>= fun cleanup =>
            pure (.tryCatch keyword.val body.tree catches.trees cleanup)
        else
          leaveTrailing (comments.val.map commentStmt) >>= fun _ =>
            pure (.tryCatch keyword.val body.tree catches.trees .missing))
        (s.on (last :: more)) := by
  obtain ⟨last, hRunBody⟩ := hBody s fuel (catches.tokens ++ (comments.val ++ more)) hTrailing
    hBodyFits hBodyFuel
  obtain ⟨last', hRunCatches⟩ := hCatches s fuel last comments more hTrailing hCatchesFit hNext
    hCatch hCatchesFuel
  refine ⟨last', ?_⟩
  rw [tryStmt, cur_bind, expect_bind _ _ _ _ (body.nextKind_tokens _), bind_of_ok hRunBody,
    bind_of_ok hRunCatches]
  rfl

/-- A try without a cleanup leaves the comments behind it to be taken later. -/
theorem readAsStmt_tryCatch (keyword : Mark .kwTry) (comments : Comments)
    (hBody : ReadAsBlock body) (hCatches : ReadAsCatches catches) :
    ReadAsStmt (.tryCatch keyword body catches comments) := by
  intro s fuel more hTrailing hFits hFuel
  obtain ⟨hBodyFits, hCatchesFit, hNext, hCatch, hFinally⟩ := hFits
  simp only [StmtPhrase.tokens, StmtPhrase.trailing, List.length_cons, List.length_append,
    List.cons_append, List.append_assoc] at hFuel ⊢
  obtain ⟨fuel, rfl⟩ : ∃ n, fuel = n + 2 := ⟨fuel - 2, by omega⟩
  obtain ⟨last, hRun⟩ := tryStmt_catches keyword comments hBody hCatches s fuel more hTrailing
    hBodyFits hCatchesFit hNext hCatch (by omega) (by omega)
  refine ⟨last, ?_⟩
  rw [construct, cur_bind]
  simp only [State.cur_on_cons, keyword.property]
  rw [hRun, peekIs_bind, State.kind_peek_on_cons, if_neg (by simpa using hFinally),
    leaveTrailing_bind]
  rfl

/-- A try with a cleanup is read up to the end of the cleanup. -/
theorem readAsStmt_tryFinally (keyword : Mark .kwTry) (comments : Comments)
    (lastly : Mark .kwFinally) (hBody : ReadAsBlock body) (hCatches : ReadAsCatches catches)
    (hCleanup : ReadAsBlock alternative) :
    ReadAsStmt (.tryFinally keyword body catches comments lastly alternative) := by
  intro s fuel more hTrailing hFits hFuel
  obtain ⟨hBodyFits, hCatchesFit, hCleanupFits⟩ := hFits
  simp only [StmtPhrase.tokens, StmtPhrase.trailing, State.leaving_nil, List.length_cons,
    List.length_append, List.cons_append, List.append_assoc] at hFuel ⊢
  have hLastly : nextKind (lastly.val :: (alternative.tokens ++ more)) = .kwFinally :=
    lastly.property
  obtain ⟨fuel, rfl⟩ : ∃ n, fuel = n + 2 := ⟨fuel - 2, by omega⟩
  obtain ⟨last, hRun⟩ := tryStmt_catches keyword comments hBody hCatches s fuel
    (lastly.val :: (alternative.tokens ++ more)) hTrailing hBodyFits hCatchesFit
    (by rw [hLastly]; rfl) (by rw [hLastly]; decide) (by omega) (by omega)
  obtain ⟨last', hRunCleanup⟩ := hCleanup s fuel more hTrailing hCleanupFits (by omega)
  refine ⟨last', ?_⟩
  rw [construct, cur_bind]
  simp only [State.cur_on_cons, keyword.property]
  rw [hRun, peekIs_bind, State.kind_peek_on_cons, if_pos (by simp [hLastly]), advance_bind,
    expect_bind _ _ _ _ (alternative.nextKind_tokens more), bind_of_ok hRunCleanup]
  rfl

end Forwards

mutual

/-- Every statement phrase is read where it fits. -/
theorem readAsStmt : (phrase : StmtPhrase) → ReadAsStmt phrase
  | .package keyword name => readAsStmt_package keyword name
  | .importOne keyword path => readAsStmt_importOne keyword path
  | .importGroup keyword opening paths closing =>
      readAsStmt_importGroup keyword opening paths closing
  | .decl kind keyword name type (some init) => readAsStmt_declInit kind keyword name type init
  | .decl kind keyword name type none => readAsStmt_declBare kind keyword name type
  | .simple phrase => readAsStmt_simple phrase
  | .ret keyword values => readAsStmt_ret keyword values
  | .throw keyword value => readAsStmt_throw keyword value
  | .branch token hKind => readAsStmt_branch token hKind
  | .comment token hKind => readAsStmt_comment token hKind
  | .block body => readAsStmt_block (readAsBlock body)
  | .func keyword name opening params closing result body =>
      readAsStmt_func keyword name opening params closing result (readAsBlock body)
  | .ifElse chain => readAsStmt_ifElse (readAsIf chain)
  | .loop keyword header body => readAsStmt_loop keyword header (readAsBlock body)
  | .tryCatch keyword body catches comments =>
      readAsStmt_tryCatch keyword comments (readAsBlock body) (readAsCatches catches)
  | .tryFinally keyword body catches comments lastly cleanup =>
      readAsStmt_tryFinally keyword comments lastly (readAsBlock body) (readAsCatches catches)
        (readAsBlock cleanup)

/-- Every phrase of a block is read as that block. The induction goes over the phrases together. -/
theorem readAsBlock : (phrase : BlockPhrase) → ReadAsBlock phrase
  | .mk opening items closing => readAsBlock_mk opening closing (readAsItems items)

/-- Statements in a row are read as they are spelled. -/
theorem readAsItems : (phrase : ItemsPhrase) → ReadAsItems phrase
  | .nil => readAsItems_nil
  | .semicolon mark rest => readAsItems_semicolon mark (readAsItems rest)
  | .cons stmt semicolon rest => readAsItems_cons semicolon (readAsStmt stmt) (readAsItems rest)

/-- Every chain of conditionals is read as it is spelled. -/
theorem readAsIf : (phrase : IfPhrase) → ReadAsIf phrase
  | .plain keyword condition body => readAsIf_plain keyword condition (readAsBlock body)
  | .elseIf keyword condition body otherwise chain =>
      readAsIf_elseIf keyword condition otherwise (readAsBlock body) (readAsIf chain)
  | .elseBlock keyword condition body otherwise alternative =>
      readAsIf_elseBlock keyword condition otherwise (readAsBlock body) (readAsBlock alternative)

/-- Clauses in a row are read as they are spelled. -/
theorem readAsCatches : (phrase : CatchesPhrase) → ReadAsCatches phrase
  | .nil => readAsCatches_nil
  | .cons comments keyword binding body rest =>
      readAsCatches_cons comments keyword binding (readAsBlock body) (readAsCatches rest)

end

end TryGo.Parse
