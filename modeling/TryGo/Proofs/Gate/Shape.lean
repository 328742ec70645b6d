import TryGo.Proofs.Parse.Keep
import TryGo.Proofs.Parse.StmtSound
import TryGo.Proofs.Tree.Native

/-! What parsing delivers, reports or not. Reading goes on around a construct that could not be
read, but whatever it does deliver belongs in its place. The comments that wait behind a try are
part of the bargain, because they enter a statement list later. -/
namespace TryGo.Parse

/-- Whether a step, started while native statements wait, leaves such statements waiting, and
delivers only good values. -/
def Delivers {α : Type} (Good : α → Prop) (step : ParseM α) : Prop :=
  ∀ s, Stmt.AllNative s.trailing →
    Stmt.AllNative (final (step s)).trailing ∧ ∀ a s', step s = .ok a s' → Good a

/-- A step that leaves native statements waiting, whatever it delivers. -/
class Tidy {α : Type} (step : ParseM α) : Prop where
  delivers : Delivers (fun _ => True) step

section Steps

variable {α β : Type} {P : α → Prop} {Q : β → Prop} {step : ParseM α} {f : α → ParseM β}

/-- What a step delivers may be described more loosely. -/
theorem Delivers.imp {P' : α → Prop} (hStep : Delivers P step) (hImp : ∀ a, P a → P' a) :
    Delivers P' step :=
  fun s hWaiting => ⟨(hStep s hWaiting).1, fun a s' hRun => hImp a ((hStep s hWaiting).2 a s' hRun)⟩

/-- A step that only returns a value delivers what is true of it. -/
theorem delivers_pure {a : α} (hValue : P a) : Delivers P (pure a) := by
  refine fun s hWaiting => ⟨hWaiting, fun b s' hRun => ?_⟩
  cases hRun
  exact hValue

/-- Two steps in a row deliver what the second does, given a value that the first delivers. -/
theorem Delivers.bind (hFirst : Delivers P step) (hThen : ∀ a, P a → Delivers Q (f a)) :
    Delivers Q (step >>= f) := by
  intro s hWaiting
  obtain ⟨hMiddle, hValue⟩ := hFirst s hWaiting
  rw [bind_run]
  cases hRun : step s with
  | ok a middle =>
      rw [hRun] at hMiddle
      exact hThen a (hValue a middle hRun) middle hMiddle
  | error halt middle =>
      rw [hRun] at hMiddle
      exact ⟨hMiddle, nofun⟩

/-- A step of which only the effect counts may stand in front of another. -/
theorem Delivers.after [hFirst : Tidy step] (hThen : ∀ a, Delivers Q (f a)) :
    Delivers Q (step >>= f) := hFirst.delivers.bind fun a _ => hThen a

/-- A step that leaves the waiting statements alone is tidy. -/
instance [hKeeps : Keeps step] : Tidy step :=
  ⟨fun s hWaiting => ⟨by rw [hKeeps.trailing s]; exact hWaiting, fun _ _ _ => trivial⟩⟩

/-- A step that delivers nothing delivers only good values. -/
theorem delivers_abandon : Delivers P abandon :=
  fun _ hWaiting => ⟨hWaiting, nofun⟩

/-- A reader without fuel delivers nothing, so whatever is asked. -/
theorem delivers_outOfFuel : Delivers P outOfFuel :=
  fun _ hWaiting => ⟨hWaiting, nofun⟩

/-- A choice delivers what both of its arms do, each under its own condition. -/
theorem Delivers.ite {condition : Prop} [Decidable condition] {x y : ParseM α}
    (hThen : condition → Delivers P x) (hElse : ¬ condition → Delivers P y) :
    Delivers P (if condition then x else y) := by
  split
  next hYes => exact hThen hYes
  next hNo => exact hElse hNo

/-- An attempt delivers what the step does, if it gives a value at all. -/
theorem Delivers.attempt (hStep : Delivers P step) :
    Delivers (fun result => ∀ a, result = some a → P a) (attempt step) := by
  intro s hWaiting
  obtain ⟨hAfter, hValue⟩ := hStep s hWaiting
  unfold Parse.attempt
  cases hRun : step s with
  | ok a middle =>
      rw [hRun] at hAfter
      refine ⟨hAfter, fun b s' hOk c hSome => ?_⟩
      cases hOk
      cases hSome
      exact hValue a middle hRun
  | error halt middle =>
      rw [hRun] at hAfter
      cases halt with
      | abandoned =>
          refine ⟨hAfter, fun b s' hOk c hSome => ?_⟩
          cases hOk
          cases hSome
      | unrenderable | outOfFuel => exact ⟨hAfter, nofun⟩

/-- A name is read as a name. -/
theorem delivers_curIdent : Delivers (fun e => e.isIdent = true) curIdent :=
  .after fun _ => delivers_pure rfl

/-- The comments that were left behind are statements like any other. -/
theorem delivers_takeTrailing : Delivers Stmt.AllNative takeTrailing := by
  refine fun s hWaiting => ⟨trivial, fun waiting s' hRun => ?_⟩
  cases hRun
  exact hWaiting

theorem tidy_leaveTrailing {comments : List Stmt} (hComments : Stmt.AllNative comments) :
    Tidy (leaveTrailing comments) := by
  refine ⟨fun s hWaiting => ⟨?_, fun _ _ _ => trivial⟩⟩
  rw [Stmt.allNative_iff] at hWaiting hComments
  exact Stmt.allNative_iff.mpr (List.forall_mem_append.mpr ⟨hWaiting, hComments⟩)

end Steps

/-! ### Expressions -/

/-- An integer is a leaf, and one whose value is refused is the missing expression. -/
theorem delivers_integerLiteral : Delivers Expr.Native integerLiteral := by
  refine .after fun token => ?_
  split
  · exact delivers_pure trivial
  · exact .after fun _ => delivers_pure trivial

theorem delivers_floatLiteral : Delivers Expr.Native floatLiteral := by
  refine .after fun token => ?_
  split
  · exact delivers_pure trivial
  · exact .after fun _ => delivers_pure trivial

structure ReadsNative (fuel : Nat) : Prop where
  expression : ∀ level, Delivers Expr.Native (expression fuel level)
  operators : ∀ level left, left.Native → Delivers Expr.Native (operators fuel level left)
  arguments : Delivers Expr.AllNative (arguments fuel)
  expressions : Delivers Expr.AllNative (expressions fuel)

/-- An operand is read by its own reader, and what follows it by that for operators. -/
theorem delivers_expression_succ {fuel : Nat} (h : ReadsNative fuel) (level : Nat) :
    Delivers Expr.Native (expression (fuel + 1) level) := by
  refine .after fun token => ?_
  split
  case h_2 => exact delivers_integerLiteral.bind (h.operators level)
  case h_3 => exact delivers_floatLiteral.bind (h.operators level)
  case h_10 | h_11 | h_12 =>
    exact .after fun _ => (h.expression _).bind fun operand hOperand =>
      h.operators level _ hOperand
  case h_13 =>
    refine .after fun _ => (h.expression _).bind fun inner hInner => .after fun closed => ?_
    refine h.operators level _ ?_
    split
    · exact hInner
    · trivial
  case h_14 => exact .after fun _ => delivers_pure trivial
  all_goals exact h.operators level _ trivial

/-- An operator makes one expression of parts that were read before. -/
theorem delivers_operators_succ {fuel : Nat} (h : ReadsNative fuel) (level : Nat) {left : Expr}
    (hLeft : left.Native) : Delivers Expr.Native (operators (fuel + 1) level left) := by
  refine .after fun next => .ite (fun _ => delivers_pure hLeft) fun _ => .after fun _ => ?_
  split
  · exact h.arguments.bind fun args hArgs => h.operators level _ ⟨hLeft, hArgs⟩
  · refine .after fun _ => (h.expression _).bind fun position hPosition => .after fun closed => ?_
    refine h.operators level _ ?_
    split
    · exact ⟨hLeft, hPosition⟩
    · trivial
  · refine .after fun found => .ite (fun _ => ?_) fun _ => h.operators level _ trivial
    exact delivers_curIdent.bind fun field hField => h.operators level _ ⟨hLeft, hField⟩
  · exact .after fun _ => (h.expression _).bind fun right hRight =>
      h.operators level _ ⟨hLeft, hRight⟩

theorem delivers_arguments_succ {fuel : Nat} (h : ReadsNative fuel) :
    Delivers Expr.AllNative (arguments (fuel + 1)) := by
  refine .after fun empty => .ite (fun _ => .after fun _ => delivers_pure trivial) fun _ => ?_
  refine .after fun _ => h.expressions.attempt.bind fun result hResult => ?_
  cases result with
  | none => exact delivers_pure trivial
  | some args =>
      refine .after fun closed => delivers_pure ?_
      split
      · exact hResult args rfl
      · trivial

theorem delivers_expressions_succ {fuel : Nat} (h : ReadsNative fuel) :
    Delivers Expr.AllNative (expressions (fuel + 1)) := by
  refine (h.expression _).bind fun first hFirst => .ite (fun _ => delivers_abandon) fun _ => ?_
  refine .after fun more => .ite (fun _ => ?_) fun _ => delivers_pure ⟨hFirst, trivial⟩
  exact .after fun _ => .after fun _ => h.expressions.bind fun rest hRest =>
    delivers_pure ⟨hFirst, hRest⟩

/-- The expressions that any fuel reads have parts in the places where the readers put them. -/
theorem readsNative (fuel : Nat) : ReadsNative fuel := by
  induction fuel with
  | zero =>
      exact ⟨fun _ => delivers_outOfFuel, fun _ _ _ => delivers_outOfFuel, delivers_outOfFuel,
        delivers_outOfFuel⟩
  | succ fuel ih =>
      exact ⟨delivers_expression_succ ih, fun level _ => delivers_operators_succ ih level,
        delivers_arguments_succ ih, delivers_expressions_succ ih⟩

theorem delivers_readExpr : Delivers Expr.Native readExpr :=
  .after fun _ => (readsNative _).expression _

theorem delivers_readExprs : Delivers Expr.AllNative readExprs :=
  .after fun _ => (readsNative _).expressions

theorem delivers_requireExpr : Delivers Expr.Native requireExpr :=
  delivers_readExpr.bind fun _ hNative =>
    .ite (fun _ => delivers_abandon) fun _ => delivers_pure hNative

/-! ### Statements without statements in them -/

theorem delivers_packageStmt : Delivers Stmt.Native packageStmt :=
  .after fun _ => .after fun _ => .after fun _ => delivers_pure trivial

theorem delivers_importStmt : Delivers Stmt.Native importStmt := by
  refine .after fun token => .after fun group => .ite (fun _ => ?_) fun _ => ?_
  · refine .after fun _ => .after fun left => ?_
    exact .after fun _ => .after fun _ => delivers_pure trivial
  · exact .after fun _ => .after fun _ => delivers_pure trivial

theorem delivers_declStmt (kind : DeclKind) : Delivers Stmt.Native (declStmt kind) := by
  refine .after fun token => .after fun _ => delivers_curIdent.bind fun name hName => ?_
  refine .after fun type => ?_
  cases kind with
  | const =>
      exact .after fun _ => .after fun _ => delivers_readExpr.bind fun value hValue =>
        delivers_pure ⟨hName, hValue⟩
  | var =>
      refine .after fun init => .ite (fun _ => ?_) fun _ => delivers_pure ⟨hName, trivial⟩
      exact .after fun _ => .after fun _ => delivers_readExpr.bind fun value hValue =>
        delivers_pure ⟨hName, hValue⟩

theorem delivers_returnStmt : Delivers Stmt.Native returnStmt :=
  .after fun _ => .after fun _ => .ite (fun _ => delivers_pure trivial) fun _ => .after fun _ =>
    delivers_readExprs.bind fun _ hValues => delivers_pure hValues

theorem delivers_throwStmt : Delivers Stmt.Native throwStmt :=
  .after fun _ => .after fun _ => delivers_requireExpr.bind fun _ hValue => delivers_pure hValue

/-- Only identifiers pass. -/
theorem delivers_requireIdents (es : List Expr) :
    Delivers (fun _ => ∀ e ∈ es, e.isIdent = true) (requireIdents es) := by
  induction es with
  | nil => exact delivers_pure fun _ hMem => absurd hMem List.not_mem_nil
  | cons e rest ih =>
      refine .ite (fun hIdent => ih.imp fun _ hRest => List.forall_mem_cons.mpr ⟨hIdent, hRest⟩)
        fun _ => ?_
      split
      · exact .after fun _ => delivers_abandon
      · exact .after fun _ => delivers_abandon

/-- A statement that starts with an expression is a simple one. -/
theorem delivers_expressionStmt :
    Delivers (fun s => s.isSimple = true ∧ s.Native) expressionStmt := by
  refine .after fun token => delivers_readExprs.bind fun exprs hExprs => .after fun next => ?_
  refine .ite (fun _ => ?_) fun _ => .ite (fun _ => ?_) fun _ => ?_
  · exact (delivers_requireIdents exprs).bind fun _ hIdents => .after fun _ => .after fun _ =>
      delivers_readExprs.bind fun values hValues => delivers_pure ⟨rfl, hIdents, hValues⟩
  · exact .after fun _ => .after fun _ => delivers_readExprs.bind fun values hValues =>
      delivers_pure ⟨rfl, hExprs, hValues⟩
  · split
    · exact .ite (fun _ => .after fun _ => delivers_pure ⟨rfl, hExprs.1⟩)
        fun _ => delivers_pure ⟨rfl, hExprs.1⟩
    · exact .after fun _ => delivers_abandon

/-- What may stand in the clauses of a loop is a simple statement. -/
theorem delivers_simpleStmt : Delivers (fun s => s.isSimple = true ∧ s.Native) simpleStmt := by
  refine .after fun token => .after fun next => .ite (fun _ => ?_) fun _ => .ite (fun _ => ?_) ?_
  · refine .after fun _ => .after fun _ => delivers_readExprs.bind fun values hValues =>
      delivers_pure ⟨rfl, ?_, hValues⟩
    exact List.forall_mem_singleton.mpr rfl
  · exact .after fun _ => delivers_pure ⟨rfl, trivial⟩
  · exact fun _ => delivers_expressionStmt

/-- Parameters have names. -/
theorem delivers_parameters (fuel : Nat) :
    Delivers (fun params => ∀ param ∈ params.map Prod.fst, param.isIdent = true)
      (parameters fuel) := by
  induction fuel with
  | zero => exact delivers_outOfFuel
  | succ fuel ih =>
      rw [parameters_succ]
      refine .after fun _ => delivers_curIdent.bind fun name hName => .after fun type => ?_
      refine .after fun more => .ite (fun _ => ?_) fun _ => ?_
      · exact .after fun _ => ih.bind fun rest hRest =>
          delivers_pure (List.forall_mem_cons.mpr ⟨hName, hRest⟩)
      · exact .after fun _ => delivers_pure (List.forall_mem_singleton.mpr hName)

/-- Parameters are names. -/
theorem delivers_readParameters :
    Delivers (fun params => ∀ param ∈ params.map Prod.fst, param.isIdent = true)
      readParameters := by
  refine .after fun empty => .ite (fun _ => ?_) fun _ => .after fun left => delivers_parameters _
  exact .after fun _ => delivers_pure fun _ hMem => absurd hMem List.not_mem_nil

/-! ### Statements with statements in them -/

structure MakesNative (fuel : Nat) : Prop where
  statement : Delivers (fun result => ∀ s, result = some s → s.Native) (statement fuel)
  construct : Delivers Stmt.Native (construct fuel)
  block : Delivers (fun s => s.isBlock = true ∧ s.Native) (block fuel)
  blockItems : Delivers Stmt.AllNative (blockItems fuel)
  ifStmt : Delivers (fun s => s.isConditional = true ∧ s.Native) (ifStmt fuel)
  forStmt : Delivers Stmt.Native (forStmt fuel)
  loopClauses : ∀ token init, (init.isMissing = true ∨ init.isSimple = true ∧ init.Native) →
    Delivers Stmt.Native (loopClauses fuel token init)
  functionStmt : Delivers Stmt.Native (functionStmt fuel)
  tryStmt : Delivers Stmt.Native (tryStmt fuel)
  catchClauses : Delivers (fun result => Stmt.AllClausesNative result.1) (catchClauses fuel)
  catchClause : Delivers (fun s => Stmt.AllClausesNative [s]) (catchClause fuel)

theorem makesNative_zero : MakesNative 0 := by
  constructor
  case loopClauses => exact fun _ _ _ => delivers_outOfFuel
  all_goals exact delivers_outOfFuel

/-- A statement, the comments that waited behind it and the rest make up a statement list. -/
theorem allNative_items {result : Option Stmt} {comments rest : List Stmt}
    (hResult : ∀ s, result = some s → s.Native) (hComments : Stmt.AllNative comments)
    (hRest : Stmt.AllNative rest) : Stmt.AllNative (result.toList ++ comments ++ rest) := by
  rw [Stmt.allNative_iff] at hComments hRest ⊢
  refine List.forall_mem_append.mpr ⟨List.forall_mem_append.mpr ⟨?_, hComments⟩, hRest⟩
  intro s hMem
  exact hResult s (Option.mem_toList.mp hMem)

/-- The condition of a loop is an expression, the missing one if it is left out. -/
theorem delivers_loopCondition : Delivers Expr.Native loopCondition := by
  refine .after fun token => .ite (fun _ => delivers_pure trivial) fun _ => ?_
  exact delivers_readExpr.bind fun condition hCondition => .after fun _ => delivers_pure hCondition

section Successor

variable {fuel : Nat} (h : MakesNative fuel)
include h

theorem delivers_statement_succ :
    Delivers (fun result => ∀ s, result = some s → s.Native) (statement (fuel + 1)) := by
  rw [statement_succ]
  refine .after fun token => .ite (fun _ => delivers_pure nofun) fun _ => ?_
  exact h.construct.attempt.bind fun result hResult => .after fun _ => delivers_pure hResult

/-- Each construct is read by the reader for its keyword. -/
theorem delivers_construct_succ : Delivers Stmt.Native (construct (fuel + 1)) := by
  refine .after fun token => ?_
  split
  · exact delivers_packageStmt
  · exact delivers_importStmt
  · exact delivers_declStmt .var
  · exact delivers_declStmt .const
  · exact h.functionStmt
  · exact delivers_returnStmt
  · exact h.ifStmt.imp fun _ hIf => hIf.2
  · exact h.forStmt
  · exact delivers_pure trivial
  · exact delivers_pure trivial
  · exact h.tryStmt
  · exact delivers_throwStmt
  · exact delivers_pure (.inl ‹_›)
  · exact delivers_pure (.inr ‹_›)
  · exact h.block.imp fun _ hBlock => hBlock.2
  · exact delivers_simpleStmt.imp fun _ hSimple => hSimple.2

/-- A block is read as a block. -/
theorem delivers_block_succ :
    Delivers (fun s => s.isBlock = true ∧ s.Native) (block (fuel + 1)) :=
  .after fun _ => .after fun _ => h.blockItems.bind fun _ hItems => delivers_pure ⟨rfl, hItems⟩

theorem delivers_blockItems_succ : Delivers Stmt.AllNative (blockItems (fuel + 1)) := by
  refine .after fun token => .ite (fun _ => delivers_pure trivial) fun _ => ?_
  refine .ite (fun _ => .after fun _ => delivers_pure trivial) fun _ => ?_
  refine h.statement.bind fun result hResult => delivers_takeTrailing.bind fun comments hComments =>
    .after fun _ => h.blockItems.bind fun rest hRest => delivers_pure ?_
  exact allNative_items hResult hComments hRest

/-- An alternative is a block or another conditional. -/
theorem delivers_ifStmt_succ :
    Delivers (fun s => s.isConditional = true ∧ s.Native) (ifStmt (fuel + 1)) := by
  refine .after fun token => .after fun _ => delivers_readExpr.bind fun condition hCondition => ?_
  refine .after fun _ => h.block.bind fun consequence hConsequence => .after fun more => ?_
  refine .ite (fun _ => .after fun _ => .after fun chained => ?_) fun _ => delivers_pure ?_
  · refine .ite (fun _ => .after fun _ => h.ifStmt.bind fun alternative hAlternative => ?_)
      fun _ => .after fun _ => h.block.bind fun alternative hAlternative => ?_
    · refine delivers_pure ⟨rfl, hCondition, hConsequence, .inr ⟨?_, hAlternative.2⟩⟩
      rw [hAlternative.1, Bool.or_true]
    · refine delivers_pure ⟨rfl, hCondition, hConsequence, .inr ⟨?_, hAlternative.2⟩⟩
      rw [hAlternative.1, Bool.true_or]
  · exact ⟨rfl, hCondition, hConsequence, .inl rfl⟩

/-- The clauses of a loop are simple statements around an expression. -/
theorem delivers_loopClauses_succ (token : Token) {init : Stmt}
    (hInit : init.isMissing = true ∨ init.isSimple = true ∧ init.Native) :
    Delivers Stmt.Native (loopClauses (fuel + 1) token init) := by
  rw [loopClauses_succ]
  refine .after fun _ => delivers_loopCondition.bind fun condition hCondition => ?_
  refine .after fun _ => .after fun next => .ite (fun _ => ?_) fun _ => ?_
  · exact h.block.bind fun body hBody =>
      delivers_pure ⟨hInit, hCondition, .inl rfl, hBody⟩
  · refine delivers_simpleStmt.attempt.bind fun update hUpdate => .after fun _ => ?_
    refine h.block.bind fun body hBody => delivers_pure ⟨hInit, hCondition, ?_, hBody⟩
    cases update with
    | none => exact .inl rfl
    | some update => exact .inr (hUpdate update rfl)

/-- What follows the first simple statement decides what sort of loop it is. -/
theorem delivers_afterInit (token : Token) {init : Stmt}
    (hInit : init.isSimple = true ∧ init.Native) (opened : Bool) :
    Delivers Stmt.Native (afterInit fuel token init opened) := by
  unfold afterInit
  split
  · exact .after fun _ => h.block.bind fun body hBody =>
      delivers_pure ⟨.inl rfl, hInit.2, .inl rfl, hBody⟩
  · exact .after fun _ => h.loopClauses token _ (.inr hInit)

theorem delivers_forStmt_succ : Delivers Stmt.Native (forStmt (fuel + 1)) := by
  rw [forStmt_succ]
  refine .after fun token => .after fun endless => .ite (fun _ => ?_) fun _ => ?_
  · exact .after fun _ => h.block.bind fun body hBody =>
      delivers_pure ⟨.inl rfl, trivial, .inl rfl, hBody⟩
  · refine .after fun _ => .after fun next => .ite (fun _ => ?_) fun _ => ?_
    · exact h.loopClauses token .missing (.inl rfl)
    · exact delivers_simpleStmt.bind fun init hInit => .after fun opened =>
        delivers_afterInit h token hInit opened

theorem delivers_functionStmt_succ : Delivers Stmt.Native (functionStmt (fuel + 1)) := by
  refine .after fun token => .after fun _ => delivers_curIdent.bind fun name hName => ?_
  refine .after fun _ => delivers_readParameters.bind fun params hParams => .after fun result => ?_
  exact .after fun _ => h.block.bind fun body hBody =>
    delivers_pure ⟨hName, hParams, hBody⟩

theorem delivers_tryStmt_succ : Delivers Stmt.Native (tryStmt (fuel + 1)) := by
  refine .after fun token => .after fun _ => h.block.bind fun body hBody => ?_
  refine h.catchClauses.bind fun clauses hClauses => .after fun lastly => ?_
  refine .ite (fun _ => ?_) fun _ => ?_
  · exact .after fun _ => .after fun _ => h.block.bind fun cleanup hCleanup =>
      delivers_pure ⟨hBody, hClauses, .inr hCleanup⟩
  · have hComments : Stmt.AllNative (clauses.2.map commentStmt) := by
      rw [Stmt.allNative_iff]
      exact List.forall_mem_map.mpr fun _ _ => trivial
    have := tidy_leaveTrailing hComments
    exact .after fun _ => delivers_pure ⟨hBody, hClauses, .inl rfl⟩

/-- Only clauses stand behind the block of a try. -/
theorem delivers_catchClauses_succ :
    Delivers (fun result => Stmt.AllClausesNative result.1) (catchClauses (fuel + 1)) := by
  refine .after fun comments => .after fun more => .ite (fun _ => ?_) fun _ => delivers_pure trivial
  refine .after fun _ => h.catchClause.attempt.bind fun clause hClause => ?_
  refine h.catchClauses.bind fun rest hRest => delivers_pure ?_
  cases clause with
  | none => exact hRest
  | some clause =>
      have hFirst := hClause clause rfl
      cases clause with
      | catchClause => exact ⟨hFirst.1, hFirst.2.1, hRest⟩
      | _ => exact hFirst

theorem delivers_catchClause_succ :
    Delivers (fun s => Stmt.AllClausesNative [s]) (catchClause (fuel + 1)) := by
  refine .after fun token => .after fun binds => .ite (fun _ => ?_) fun _ => ?_
  · refine .after fun _ => .after fun _ => delivers_curIdent.bind fun name hName => ?_
    have hBinding : (name.isMissing || name.isIdent) = true := by rw [hName, Bool.or_true]
    refine .after fun untyped => .ite (fun _ => ?_) fun _ => ?_
    · exact .after fun _ => .after fun _ => h.block.bind fun body hBody =>
        delivers_pure ⟨hBinding, hBody, trivial⟩
    · exact .after fun _ => .after fun type => .after fun _ => .after fun _ =>
        h.block.bind fun body hBody => delivers_pure ⟨hBinding, hBody, trivial⟩
  · exact .after fun _ => h.block.bind fun body hBody =>
      delivers_pure ⟨rfl, hBody, trivial⟩

end Successor

/-- The statements that any fuel reads have parts in the places where the readers put them. -/
theorem makesNative (fuel : Nat) : MakesNative fuel := by
  induction fuel with
  | zero => exact makesNative_zero
  | succ fuel ih =>
      exact ⟨delivers_statement_succ ih, delivers_construct_succ ih, delivers_block_succ ih,
        delivers_blockItems_succ ih, delivers_ifStmt_succ ih, delivers_forStmt_succ ih,
        fun token _ => delivers_loopClauses_succ ih token, delivers_functionStmt_succ ih,
        delivers_tryStmt_succ ih, delivers_catchClauses_succ ih, delivers_catchClause_succ ih⟩

/-- So have the statements of a whole program. -/
theorem delivers_programItems (fuel : Nat) : Delivers Stmt.AllNative (programItems fuel) := by
  induction fuel with
  | zero => exact delivers_outOfFuel
  | succ fuel ih =>
      refine .after fun token => .ite (fun _ => delivers_pure trivial) fun _ => ?_
      refine .after fun left => ?_
      refine (makesNative _).statement.bind fun result hResult => ?_
      exact delivers_takeTrailing.bind fun comments hComments => .after fun _ =>
        ih.bind fun rest hRest => delivers_pure (allNative_items hResult hComments hRest)

/-- Every program that is read is native, whatever was reported. -/
theorem allNative_readFrom {cursor : Cursor} {program : Program}
    (hResult : (readFrom cursor).result = .ok program) : Stmt.AllNative program.statements := by
  have hDelivers : Delivers (fun program => Stmt.AllNative program.statements) readProgram :=
    .after fun token => .after fun left => (delivers_programItems _).bind fun _ hItems =>
      delivers_pure hItems
  rw [readFrom] at hResult
  cases hRun : readProgram (State.init cursor) with
  | error halt s =>
      rw [hRun] at hResult
      cases hResult
  | ok read s =>
      rw [hRun] at hResult
      cases hResult
      exact (hDelivers (State.init cursor) trivial).2 _ s hRun

/-- Every program that is read is well-shaped, whatever was reported. -/
theorem allShaped_readFrom {cursor : Cursor} {program : Program}
    (hResult : (readFrom cursor).result = .ok program) : Stmt.AllShaped program.statements :=
  (allNative_readFrom hResult).allShaped

end TryGo.Parse
