import TryGo.Proofs.Layout.Run
import TryGo.Proofs.Parse.Stmt

/-! Statements without positions: the readers of statements and of whole programs do the same
without positions as with them. Positions enter the reports and the trees that are built, and
nothing is ever decided by them. -/
namespace TryGo.Parse

/-- Whether a semicolon is skipped is decided by kinds alone. -/
theorem mirrors_skipSemicolon : Mirrors skipSemicolon skipSemicolon :=
  (mirrors_peekIs .semicolon).bind fun _ => Mirrors.ite mirrors_advance (mirrors_pure rfl)

theorem mirrors_packageStmt : Mirrors packageStmt packageStmt :=
  mirrors_cur.bind fun _ => (mirrors_expect .ident).bind fun _ => mirrors_cur.bind fun _ =>
    mirrors_pure rfl

/-- The paths of a group are literals, which do not depend on places. -/
theorem mirrors_importPaths (fuel : Nat) : Mirrors (importPaths fuel) (importPaths fuel) := by
  induction fuel with
  | zero => exact mirrors_outOfFuel
  | succ fuel ih =>
      rw [importPaths_succ]
      refine mirrors_skipComments.bind fun _ => (mirrors_peekIs .rparen).bind fun _ =>
        Mirrors.ite (mirrors_pure rfl) ?_
      exact (mirrors_expect .string).bind fun _ => mirrors_cur.bind fun _ =>
        mirrors_skipSemicolon.bind fun _ => ih.bind fun _ => mirrors_pure rfl

/-- Texts have no positions. -/
theorem unplaced_texts (texts : List String) : (Placed.unplaced texts : List String) = texts :=
  List.map_id texts

theorem mirrors_importStmt : Mirrors importStmt importStmt := by
  refine mirrors_cur.bind fun token => (mirrors_peekIs .lparen).bind fun _ => Mirrors.ite ?_ ?_
  · refine mirrors_advance.bind fun _ => mirrors_tokensLeft.bind fun left => ?_
    refine (mirrors_importPaths _).bind fun paths => mirrors_advance.bind fun _ => ?_
    rw [unplaced_texts]
    exact mirrors_pure rfl
  · exact (mirrors_expect .string).bind fun _ => mirrors_cur.bind fun _ => mirrors_pure rfl

theorem mirrors_optionalType : Mirrors optionalType optionalType :=
  mirrors_peek.bind fun _ => Mirrors.ite
    (mirrors_advance.bind fun _ => mirrors_readType.bind fun _ => mirrors_pure rfl)
    (mirrors_pure rfl)

/-- The text of an optional type shows no position. -/
theorem map_text_unplaced (type : Option GoType) :
    (Placed.unplaced type : Option GoType).map GoType.text = type.map GoType.text := by
  cases type with
  | none => rfl
  | some type => exact congrArg some type.text_unplaced

/-- The value of a declaration loses its places, the rest has none. -/
theorem mirrors_declStmt (kind : DeclKind) : Mirrors (declStmt kind) (declStmt kind) := by
  refine mirrors_cur.bind fun token => (mirrors_expect .ident).bind fun _ =>
    mirrors_curIdent.bind fun name => mirrors_optionalType.bind fun type => ?_
  rw [map_text_unplaced]
  cases kind with
  | const =>
      exact (mirrors_expect .assign).bind fun _ => mirrors_advance.bind fun _ =>
        mirrors_readExpr.bind fun _ => mirrors_pure rfl
  | var =>
      refine (mirrors_peekIs .assign).bind fun _ => Mirrors.ite ?_ (mirrors_pure rfl)
      exact mirrors_advance.bind fun _ => mirrors_advance.bind fun _ =>
        mirrors_readExpr.bind fun _ => mirrors_pure rfl

theorem mirrors_returnStmt : Mirrors returnStmt returnStmt :=
  mirrors_cur.bind fun _ => mirrors_peek.bind fun _ => Mirrors.ite (mirrors_pure rfl)
    (mirrors_advance.bind fun _ => mirrors_readExprs.bind fun _ => mirrors_pure rfl)

theorem mirrors_throwStmt : Mirrors throwStmt throwStmt :=
  mirrors_cur.bind fun _ => mirrors_advance.bind fun _ => mirrors_requireExpr.bind fun _ =>
    mirrors_pure rfl

/-- The report of a wrong name shows the debugging form, which shows no position. -/
theorem mirrors_requireIdents (es : List Expr) :
    Mirrors (requireIdents es) (requireIdents (es.map Expr.unplaced)) := by
  induction es with
  | nil => exact mirrors_pure rfl
  | cons e rest ih =>
      rw [List.map_cons, requireIdents, requireIdents, Expr.isIdent_unplaced, Expr.render_unplaced]
      refine Mirrors.ite ih ?_
      cases e.render with
      | ok text => exact (mirrors_report _).bind fun _ => mirrors_abandon
      | error error =>
          exact (mirrors_throw (α := Unit) _).bind fun _ => mirrors_abandon

theorem mirrors_expressionStmt : Mirrors expressionStmt expressionStmt := by
  refine mirrors_cur.bind fun token => mirrors_readExprs.bind fun exprs => ?_
  refine mirrors_peek.bind fun next => ?_
  refine Mirrors.ite ?_ (Mirrors.ite ?_ ?_)
  · exact (mirrors_requireIdents exprs).bind fun _ => mirrors_advance.bind fun _ =>
      mirrors_advance.bind fun _ => mirrors_readExprs.bind fun _ => mirrors_pure rfl
  · exact mirrors_advance.bind fun _ => mirrors_advance.bind fun _ =>
      mirrors_readExprs.bind fun _ => mirrors_pure rfl
  · match exprs with
    | [e] =>
        exact Mirrors.ite (mirrors_advance.bind fun _ => mirrors_pure rfl) (mirrors_pure rfl)
    | [] | _ :: _ :: _ => exact (mirrors_report _).bind fun _ => mirrors_abandon

/-- A simple statement loses its places with its expressions. -/
theorem mirrors_simpleStmt : Mirrors simpleStmt simpleStmt := by
  refine mirrors_cur.bind fun token => mirrors_peek.bind fun next => ?_
  refine Mirrors.ite ?_ (Mirrors.ite ?_ mirrors_expressionStmt)
  · exact mirrors_advance.bind fun _ => mirrors_advance.bind fun _ =>
      mirrors_readExprs.bind fun _ => mirrors_pure rfl
  · exact mirrors_advance.bind fun _ => mirrors_pure rfl

theorem mirrors_parameterType : Mirrors parameterType parameterType :=
  (mirrors_peekIs .ellipsis).bind fun _ => Mirrors.ite
    (mirrors_advance.bind fun _ => mirrors_readType.bind fun _ => mirrors_pure rfl)
    mirrors_optionalType

/-- A parameter loses the place of its name, and its type has none. -/
theorem mirrors_parameters (fuel : Nat) : Mirrors (parameters fuel) (parameters fuel) := by
  induction fuel with
  | zero => exact mirrors_outOfFuel
  | succ fuel ih =>
      rw [parameters_succ]
      refine (mirrors_expect .ident).bind fun _ => mirrors_curIdent.bind fun name =>
        mirrors_parameterType.bind fun type => ?_
      rw [map_text_unplaced]
      refine (mirrors_peekIs .comma).bind fun _ => Mirrors.ite ?_ ?_
      · refine mirrors_advance.bind fun _ => ih.bind fun rest => mirrors_pure ?_
        cases type <;> rfl
      · refine (mirrors_expect .rparen).bind fun _ => mirrors_pure ?_
        cases type <;> rfl

theorem map_fst_unplaced (params : List (Expr × Option String)) :
    (Placed.unplaced params : List (Expr × Option String)).map Prod.fst =
      (params.map Prod.fst).map Expr.unplaced := by
  change (params.map Placed.unplaced).map Prod.fst = _
  rw [List.map_map, List.map_map]
  rfl

theorem map_snd_unplaced (params : List (Expr × Option String)) :
    (Placed.unplaced params : List (Expr × Option String)).map Prod.snd = params.map Prod.snd := by
  change (params.map Placed.unplaced).map Prod.snd = _
  rw [List.map_map]
  refine List.map_congr_left fun param _ => ?_
  change param.2.map id = param.2
  rw [Option.map_id, id]

theorem mirrors_readParameters : Mirrors readParameters readParameters :=
  (mirrors_peekIs .rparen).bind fun _ => Mirrors.ite
    (mirrors_advance.bind fun _ => mirrors_pure rfl)
    (mirrors_tokensLeft.bind fun _ => mirrors_parameters _)

theorem mirrors_readResult : Mirrors readResult readResult :=
  (mirrors_peekIs .lparen).bind fun _ => Mirrors.ite
    (mirrors_advance.bind fun _ => mirrors_readResults.bind fun _ => mirrors_pure rfl)
    mirrors_optionalType

/-! ### Statements with statements in them -/

structure MirrorsStmts (fuel : Nat) : Prop where
  statement : Mirrors (statement fuel) (statement fuel)
  construct : Mirrors (construct fuel) (construct fuel)
  block : Mirrors (block fuel) (block fuel)
  blockItems : Mirrors (blockItems fuel) (blockItems fuel)
  ifStmt : Mirrors (ifStmt fuel) (ifStmt fuel)
  forStmt : Mirrors (forStmt fuel) (forStmt fuel)
  loopClauses : ∀ (token : Token) (init : Stmt),
    Mirrors (loopClauses fuel token init) (loopClauses fuel token.unplaced init.unplaced)
  functionStmt : Mirrors (functionStmt fuel) (functionStmt fuel)
  tryStmt : Mirrors (tryStmt fuel) (tryStmt fuel)
  catchClauses : Mirrors (catchClauses fuel) (catchClauses fuel)
  catchClause : Mirrors (catchClause fuel) (catchClause fuel)

theorem mirrorsStmts_zero : MirrorsStmts 0 := by
  constructor
  case loopClauses => exact fun _ _ => mirrors_outOfFuel
  all_goals exact mirrors_outOfFuel

theorem mirrors_loopCondition : Mirrors loopCondition loopCondition :=
  mirrors_cur.bind fun _ => Mirrors.ite (mirrors_pure rfl)
    (mirrors_readExpr.bind fun _ => (mirrors_expect .semicolon).bind fun _ => mirrors_pure rfl)

/-- A statement, the comments behind it and the rest, all without positions. -/
theorem items_unplaced (result : Option Stmt) (comments rest : List Stmt) :
    (Placed.unplaced result : Option Stmt).toList ++ (Placed.unplaced comments : List Stmt)
        ++ (Placed.unplaced rest : List Stmt) =
      (Placed.unplaced (result.toList ++ comments ++ rest) : List Stmt) := by
  change _ = (result.toList ++ comments ++ rest).map Stmt.unplaced
  rw [List.map_append, List.map_append]
  cases result <;> rfl

section Successor

variable {fuel : Nat} (h : MirrorsStmts fuel)
include h

/-- A round of a statement mirrors the reader of its construct. -/
theorem mirrors_statement_succ : Mirrors (statement (fuel + 1)) (statement (fuel + 1)) := by
  rw [statement_succ]
  refine mirrors_cur.bind fun _ => Mirrors.ite (mirrors_pure rfl) ?_
  exact h.construct.attempt.bind fun _ => mirrors_skipSemicolon.bind fun _ => mirrors_pure rfl

/-- The keyword that decides what is read does not depend on places. -/
theorem mirrors_construct_succ : Mirrors (construct (fuel + 1)) (construct (fuel + 1)) := by
  refine mirrors_cur.token fun kind literal pos => ?_
  dsimp only
  split
  · exact mirrors_packageStmt
  · exact mirrors_importStmt
  · exact mirrors_declStmt .var
  · exact mirrors_declStmt .const
  · exact h.functionStmt
  · exact mirrors_returnStmt
  · exact h.ifStmt
  · exact h.forStmt
  · exact mirrors_pure rfl
  · exact mirrors_pure rfl
  · exact h.tryStmt
  · exact mirrors_throwStmt
  · exact mirrors_pure rfl
  · exact mirrors_pure rfl
  · exact h.block
  · exact mirrors_simpleStmt

theorem mirrors_block_succ : Mirrors (block (fuel + 1)) (block (fuel + 1)) := by
  refine mirrors_cur.bind fun token => mirrors_advance.bind fun _ => ?_
  refine h.blockItems.bind fun items => ?_
  exact mirrors_pure (congrArg (Stmt.block token.unplaced) (Stmt.allUnplaced_eq_map items).symm)

/-- Statements in a row mirror one by one. -/
theorem mirrors_blockItems_succ : Mirrors (blockItems (fuel + 1)) (blockItems (fuel + 1)) := by
  refine mirrors_cur.bind fun _ => Mirrors.ite (mirrors_pure rfl) (Mirrors.ite ?_ ?_)
  · exact (mirrors_report _).bind fun _ => mirrors_pure rfl
  · exact h.statement.bind fun result => mirrors_takeTrailing.bind fun comments =>
      mirrors_advance.bind fun _ => h.blockItems.bind fun rest =>
        mirrors_pure (items_unplaced result comments rest)

theorem mirrors_ifStmt_succ : Mirrors (ifStmt (fuel + 1)) (ifStmt (fuel + 1)) := by
  refine mirrors_cur.bind fun _ => mirrors_advance.bind fun _ => mirrors_readExpr.bind fun _ => ?_
  refine (mirrors_expect .lbrace).bind fun _ => h.block.bind fun _ => ?_
  refine (mirrors_peekIs .kwElse).bind fun _ => Mirrors.ite ?_ (mirrors_pure rfl)
  refine mirrors_advance.bind fun _ => (mirrors_peekIs .kwIf).bind fun _ => Mirrors.ite ?_ ?_
  · exact mirrors_advance.bind fun _ => h.ifStmt.bind fun _ => mirrors_pure rfl
  · exact (mirrors_expect .lbrace).bind fun _ => h.block.bind fun _ => mirrors_pure rfl

theorem mirrors_loopClauses_succ (token : Token) (init : Stmt) :
    Mirrors (loopClauses (fuel + 1) token init)
      (loopClauses (fuel + 1) token.unplaced init.unplaced) := by
  rw [loopClauses_succ, loopClauses_succ]
  refine mirrors_advance.bind fun _ => mirrors_loopCondition.bind fun _ => ?_
  refine mirrors_advance.bind fun _ => mirrors_cur.bind fun _ => Mirrors.ite ?_ ?_
  · exact h.block.bind fun _ => mirrors_pure rfl
  · refine mirrors_simpleStmt.attempt.bind fun update => (mirrors_expect .lbrace).bind fun _ => ?_
    refine h.block.bind fun _ => mirrors_pure ?_
    cases update <;> rfl

/-- The sort of a loop is decided by kinds alone. -/
theorem mirrors_afterInit (token : Token) (init : Stmt) (opened : Bool) :
    Mirrors (afterInit fuel token init opened)
      (afterInit fuel token.unplaced init.unplaced opened) := by
  have hClauses (init : Stmt) : Mirrors (do expect .semicolon; loopClauses fuel token init)
      (do expect .semicolon; loopClauses fuel token.unplaced init.unplaced) :=
    (mirrors_expect .semicolon).bind fun _ => h.loopClauses token init
  cases opened with
  | false =>
      rw [afterInit_false, afterInit_false]
      exact hClauses init
  | true =>
      cases init with
      | expr exprToken condition =>
          exact mirrors_advance.bind fun _ => h.block.bind fun _ => mirrors_pure rfl
      | _ => exact hClauses _

theorem mirrors_forStmt_succ : Mirrors (forStmt (fuel + 1)) (forStmt (fuel + 1)) := by
  rw [forStmt_succ]
  refine mirrors_cur.bind fun token => (mirrors_peekIs .lbrace).bind fun _ => Mirrors.ite ?_ ?_
  · exact mirrors_advance.bind fun _ => h.block.bind fun _ => mirrors_pure rfl
  · refine mirrors_advance.bind fun _ => mirrors_cur.bind fun _ => Mirrors.ite ?_ ?_
    · exact h.loopClauses token .missing
    · exact mirrors_simpleStmt.bind fun init => (mirrors_peekIs .lbrace).bind fun opened =>
        mirrors_afterInit h token init opened

theorem mirrors_functionStmt_succ :
    Mirrors (functionStmt (fuel + 1)) (functionStmt (fuel + 1)) := by
  refine mirrors_cur.bind fun token => (mirrors_expect .ident).bind fun _ => ?_
  refine mirrors_curIdent.bind fun name => (mirrors_expect .lparen).bind fun _ => ?_
  refine mirrors_readParameters.bind fun params => mirrors_readResult.bind fun result => ?_
  refine (mirrors_expect .lbrace).bind fun _ => h.block.bind fun body => mirrors_pure ?_
  rw [map_text_unplaced, map_fst_unplaced, map_snd_unplaced]
  rfl

theorem mirrors_tryStmt_succ : Mirrors (tryStmt (fuel + 1)) (tryStmt (fuel + 1)) := by
  refine mirrors_cur.bind fun token => (mirrors_expect .lbrace).bind fun _ => ?_
  refine h.block.bind fun body => h.catchClauses.bind fun clauses => ?_
  obtain ⟨catches, comments⟩ := clauses
  have hCatches : (Placed.unplaced catches : List Stmt) = Stmt.allUnplaced catches :=
    (Stmt.allUnplaced_eq_map catches).symm
  refine (mirrors_peekIs .kwFinally).bind fun _ => Mirrors.ite ?_ ?_
  · refine mirrors_advance.bind fun _ => (mirrors_expect .lbrace).bind fun _ => ?_
    exact h.block.bind fun cleanup => mirrors_pure
      (congrArg (Stmt.tryCatch token.unplaced body.unplaced · cleanup.unplaced) hCatches)
  · have hComments : (Placed.unplaced comments : List Token).map commentStmt =
        (comments.map commentStmt).map Stmt.unplaced := by
      change (comments.map Token.unplaced).map commentStmt = _
      rw [List.map_map, List.map_map]
      rfl
    have hTry : Stmt.tryCatch token.unplaced body.unplaced (Placed.unplaced catches) .missing =
        (Stmt.tryCatch token body catches .missing).unplaced :=
      congrArg (Stmt.tryCatch token.unplaced body.unplaced · .missing) hCatches
    change Mirrors _ (leaveTrailing ((Placed.unplaced comments : List Token).map commentStmt)
      >>= fun _ =>
        pure (Stmt.tryCatch token.unplaced body.unplaced (Placed.unplaced catches) .missing))
    rw [hComments]
    exact (mirrors_leaveTrailing _).bind fun _ => mirrors_pure hTry

/-- The comments between clauses lose their places and stay in their order. -/
theorem mirrors_catchClauses_succ :
    Mirrors (catchClauses (fuel + 1)) (catchClauses (fuel + 1)) := by
  refine mirrors_skipComments.bind fun comments => (mirrors_peekIs .kwCatch).bind fun _ => ?_
  refine Mirrors.ite ?_ (mirrors_pure rfl)
  refine mirrors_advance.bind fun _ => h.catchClause.attempt.bind fun clause => ?_
  refine h.catchClauses.bind fun rest => mirrors_pure ?_
  cases clause <;> rfl

theorem mirrors_catchClause_succ : Mirrors (catchClause (fuel + 1)) (catchClause (fuel + 1)) := by
  refine mirrors_cur.bind fun token => (mirrors_peekIs .lparen).bind fun _ => Mirrors.ite ?_ ?_
  · refine mirrors_advance.bind fun _ => (mirrors_expect .ident).bind fun _ => ?_
    refine mirrors_curIdent.bind fun name => (mirrors_peekIs .rparen).bind fun _ => ?_
    refine Mirrors.ite ?_ ?_
    · exact mirrors_advance.bind fun _ => (mirrors_expect .lbrace).bind fun _ =>
        h.block.bind fun _ => mirrors_pure rfl
    · refine mirrors_advance.bind fun _ => mirrors_readType.bind fun type => ?_
      refine (mirrors_expect .rparen).bind fun _ => (mirrors_expect .lbrace).bind fun _ => ?_
      refine h.block.bind fun body => mirrors_pure ?_
      exact congrArg (Stmt.catchClause token.unplaced name.unplaced · body.unplaced)
        (congrArg some type.text_unplaced)
  · exact (mirrors_expect .lbrace).bind fun _ => h.block.bind fun _ => mirrors_pure rfl

end Successor

/-- The readers of statements mirror, whatever the fuel. -/
theorem mirrorsStmts (fuel : Nat) : MirrorsStmts fuel := by
  induction fuel with
  | zero => exact mirrorsStmts_zero
  | succ fuel ih =>
      exact ⟨mirrors_statement_succ ih, mirrors_construct_succ ih, mirrors_block_succ ih,
        mirrors_blockItems_succ ih, mirrors_ifStmt_succ ih, mirrors_forStmt_succ ih,
        mirrors_loopClauses_succ ih, mirrors_functionStmt_succ ih, mirrors_tryStmt_succ ih,
        mirrors_catchClauses_succ ih, mirrors_catchClause_succ ih⟩

/-! ### Programs -/

/-- Comments that were left behind stay where they are in the program. -/
theorem mirrors_programItems (fuel : Nat) : Mirrors (programItems fuel) (programItems fuel) := by
  induction fuel with
  | zero => exact mirrors_outOfFuel
  | succ fuel ih =>
      refine mirrors_cur.bind fun _ => Mirrors.ite (mirrors_pure rfl) ?_
      refine mirrors_tokensLeft.bind fun _ => (mirrorsStmts _).statement.bind fun result => ?_
      exact mirrors_takeTrailing.bind fun comments => mirrors_advance.bind fun _ =>
        ih.bind fun rest => mirrors_pure (items_unplaced result comments rest)

/-- A program without places is read as the same program without its places. -/
theorem mirrors_readProgram : Mirrors readProgram readProgram :=
  mirrors_cur.bind fun token => mirrors_tokensLeft.bind fun _ =>
    (mirrors_programItems _).bind fun items =>
      mirrors_pure (congrArg (Program.mk token.unplaced) (Stmt.allUnplaced_eq_map items).symm)

/-- The wording of a report does not show its position. -/
theorem map_message_unplaced (reports : List Diagnostic) :
    (reports.map fun report => { report with pos := Position.start }).map Diagnostic.message =
      reports.map Diagnostic.message := by
  rw [List.map_map]
  rfl

/-- Reading without positions gives the program and the errors of reading with them. -/
theorem readFrom_unplaced (cursor : Cursor) :
    (readFrom cursor.unplaced).errors = (readFrom cursor).errors
      ∧ (readFrom cursor.unplaced).result = (readFrom cursor).result.map Program.unplaced := by
  have hRun := mirrors_readProgram (State.init cursor)
  change readProgram (State.init cursor.unplaced) = _ at hRun
  rw [readFrom, hRun, readFrom]
  cases readProgram (State.init cursor) with
  | ok program s =>
      refine ⟨?_, rfl⟩
      change (s.reports.map _).reverse.map _ = s.reports.reverse.map _
      rw [← List.map_reverse, map_message_unplaced]
  | error halt s =>
      refine ⟨?_, rfl⟩
      change (s.reports.map _).reverse.map _ = s.reports.reverse.map _
      rw [← List.map_reverse, map_message_unplaced]

end TryGo.Parse
