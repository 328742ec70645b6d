import TryGo.Proofs.Layout.Stmt
import TryGo.Proofs.Step.Composed
import TryGo.Transpile

/-! Lowering without positions. The one position that lowering looks at is the line of a catch-all
behind which clauses are dropped, and it goes into an event only. So the lines, and the fault
if there is one, are those of the tree without positions. -/
namespace TryGo

namespace Lower

def State.silent (s : State) : State := { s with events := [] }

def silentResult {α : Type} : EStateM.Result Fault State α → EStateM.Result Fault State α
  | .ok a s => .ok a s.silent
  | .error fault s => .error fault s.silent

/-- Whether two steps do the same but for events. -/
def Agrees {α : Type} (step other : LowerM α) : Prop :=
  ∀ s t : State, s.silent = t.silent → silentResult (step s) = silentResult (other t)

/-- A step that does the same whatever events were recorded before. -/
class Quiet {α : Type} (step : LowerM α) : Prop where
  agrees : Agrees step step

section Steps

variable {α β : Type} {step other : LowerM α} {f g : α → LowerM β}

/-- Steps that agree may be followed by steps that agree on every value. -/
theorem Agrees.bind (hStep : Agrees step other) (hNext : ∀ a, Agrees (f a) (g a)) :
    Agrees (step >>= f) (other >>= g) := by
  intro s t hSame
  have hFirst := hStep s t hSame
  rw [bind_run, bind_run]
  cases hRun : step s with
  | ok a s' =>
      cases hRun' : other t with
      | ok b t' =>
          rw [hRun, hRun'] at hFirst
          injection hFirst with hValue hState
          subst hValue
          exact hNext a s' t' hState
      | error fault t' =>
          rw [hRun, hRun'] at hFirst
          cases hFirst
  | error fault s' =>
      cases hRun' : other t with
      | ok b t' =>
          rw [hRun, hRun'] at hFirst
          cases hFirst
      | error fault' t' =>
          rw [hRun, hRun'] at hFirst
          injection hFirst with hFault hState
          change EStateM.Result.error fault s'.silent = EStateM.Result.error fault' t'.silent
          rw [hFault, hState]

/-- Choices agree if both arms do. -/
theorem Agrees.ite {condition : Prop} [Decidable condition] {x y : LowerM α}
    (hThen : Agrees step other) (hElse : Agrees x y) :
    Agrees (if condition then step else x) (if condition then other else y) := by
  split
  · exact hThen
  · exact hElse

/-- A step in front of two that agree. -/
theorem Agrees.after [hStep : Quiet step] (hNext : ∀ a, Agrees (f a) (g a)) :
    Agrees (step >>= f) (step >>= g) := hStep.agrees.bind hNext

/-- Two steps that agree in front of another. -/
theorem Agrees.before (hStep : Agrees step other) [hNext : ∀ a, Quiet (f a)] :
    Agrees (step >>= f) (other >>= f) := hStep.bind fun a => (hNext a).agrees

instance (a : α) : Quiet (pure a : LowerM α) where
  agrees _ _ hSame := congrArg (EStateM.Result.ok a) hSame

instance (fault : Fault) : Quiet (throw fault : LowerM α) where
  agrees _ _ hSame := congrArg (EStateM.Result.error fault) hSame

instance [hStep : Quiet step] [hNext : ∀ a, Quiet (f a)] : Quiet (step >>= f) where
  agrees := hStep.agrees.bind fun a => (hNext a).agrees

/-- A step that does not look at places agrees with itself. -/
theorem agrees_same (step : LowerM α) [hStep : Quiet step] : Agrees step step := hStep.agrees

/-- A change that leaves the events alone and does not depend on them. -/
theorem quiet_modify {change : State → State} (hChange : ∀ s, (change s).silent = change s.silent) :
    Quiet (modify change : LowerM Unit) where
  agrees s t hSame := by
    change EStateM.Result.ok () (change s).silent = EStateM.Result.ok () (change t).silent
    rw [hChange, hChange, hSame]

/-- A look at something other than the events. -/
theorem quiet_look {read : State → α} (hRead : ∀ s, read s.silent = read s) :
    Quiet (do return read (← get) : LowerM α) where
  agrees s t hSame := by
    change EStateM.Result.ok (read s) s.silent = EStateM.Result.ok (read t) t.silent
    rw [← hRead s, ← hRead t, hSame]

/-- Events are recorded without any other effect. -/
theorem agrees_record (event event' : Event) : Agrees (record event) (record event') :=
  fun _ _ hSame => congrArg (EStateM.Result.ok ()) hSame

end Steps

section Elementary

instance (event : Event) : Quiet (record event) := ⟨agrees_record event event⟩

instance (code : Go.Code) : Quiet (emit code) := quiet_modify fun _ => rfl

instance (names : List String) : Quiet (declare names) := quiet_modify fun _ => rfl

instance : Quiet pushScope := quiet_modify fun _ => rfl

instance : Quiet popScope := quiet_modify fun _ => rfl

instance : Quiet indent := quiet_modify fun _ => rfl

instance : Quiet dedent := quiet_modify fun _ => rfl

instance (frame : Frame) : Quiet (pushFrame frame) := quiet_modify fun _ => rfl

instance : Quiet popFrame := quiet_modify fun _ => rfl

/-- Blocks agree if what is in them does. -/
theorem Agrees.inBlock {x y : LowerM Unit} (hBody : Agrees x y) (names : List String) :
    Agrees (inBlock names x) (inBlock names y) :=
  .after fun _ => .after fun _ => .after fun _ => hBody.before

theorem Agrees.inFrame {x y : LowerM Unit} (hBody : Agrees x y) (frame : Frame) :
    Agrees (inFrame frame x) (inFrame frame y) := .after fun _ => hBody.before

theorem Agrees.inScope {x y : LowerM Unit} (hBody : Agrees x y) :
    Agrees (inScope x) (inScope y) := .after fun _ => hBody.before

theorem Agrees.deeper {x y : LowerM Unit} (hBody : Agrees x y) :
    Agrees (deeper x) (deeper y) := .after fun _ => hBody.before

/-- No elementary step looks at the events. -/
instance {α : Type} (step : LowerM α) [hStep : Balanced step] : Quiet step := by
  refine ⟨?_⟩
  induction hStep with
  | value | fault | emit | record | declare => exact Quiet.agrees
  | isDeclared name => exact (quiet_look fun _ => rfl).agrees
  | frame? => exact (quiet_look fun _ => rfl).agrees
  | inBlock names _ ih => exact ih.inBlock names
  | inFrame frame _ ih => exact ih.inFrame frame
  | inScope _ ih => exact ih.inScope
  | deeper _ ih => exact ih.deeper
  | bind _ _ ih ihNext => exact ih.bind ihNext

end Elementary

/-! ### Steps on trees without positions -/

/-- Whether an expression has a Go form does not depend on places. -/
theorem checkGo_unplaced (es : List Expr) : checkGo (es.map Expr.unplaced) = checkGo es := by
  rw [checkGo, Expr.anyLongField_unplaced, ← checkGo]

theorem checkForms_unplaced (es : List Expr) :
    checkForms (es.map Expr.unplaced) = checkForms es := by
  rw [checkForms, Expr.anyLongInteger_unplaced, ← checkForms]

/-- The names of expressions do not depend on places. -/
theorem namesOf_unplaced (es : List Expr) : namesOf (es.map Expr.unplaced) = namesOf es := by
  rw [namesOf, Expr.mapM_heldValue_unplaced, ← namesOf]

/-- The names that a statement declares do not depend on places. -/
theorem declaredNames_unplaced (s : Stmt) : declaredNames s.unplaced = declaredNames s := by
  cases s with
  | decl token kind name type value =>
      change (checkForms ([name].map Expr.unplaced) >>= fun _ => pure [name.unplaced.text]) = _
      rw [checkForms_unplaced, Expr.text_unplaced, declaredNames]
  | define token names values => exact namesOf_unplaced names
  | _ => rfl

theorem writtenExprs_unplaced (s : Stmt) :
    writtenExprs s.unplaced = (writtenExprs s).map Expr.unplaced := by
  cases s with
  | define token names values => exact List.map_append.symm
  | assign token targets op values => exact List.map_append.symm
  | _ => rfl

/-- Neither does the line of a simple statement. -/
theorem simpleCode_unplaced (s : Stmt) : simpleCode s.unplaced = simpleCode s := by
  cases s with
  | decl token kind name type value =>
      rw [Stmt.unplaced, simpleCode, Expr.text_unplaced, Expr.isMissing_unplaced,
        Expr.go_unplaced, simpleCode]
  | define token names values =>
      rw [Stmt.unplaced, simpleCode, Expr.map_go_unplaced, Expr.map_go_unplaced, simpleCode]
  | assign token targets op values =>
      rw [Stmt.unplaced, simpleCode, Expr.map_go_unplaced, Expr.map_go_unplaced, simpleCode]
  | incr token target op =>
      rw [Stmt.unplaced, simpleCode, Expr.goAt_unplaced _ (by decide), simpleCode]
  | expr token value => rw [Stmt.unplaced, simpleCode, Expr.go_unplaced, simpleCode]
  | bare value => exact congrArg Go.Code.unsupported value.kind_unplaced
  | _ => rfl

@[simp] theorem simple_unplaced (s : Stmt) : simple s.unplaced = simple s := by
  rw [simple, declaredNames_unplaced, writtenExprs_unplaced, checkGo_unplaced,
    simpleCode_unplaced, ← simple]

theorem clauseText_unplaced (s : Stmt) : clauseText s.unplaced = clauseText s := by
  rw [clauseText, Stmt.isMissing_unplaced, simple_unplaced, ← clauseText]

/-- Neither does the header of a loop. -/
theorem loopHeader_unplaced (init : Stmt) (condition : Expr) (update : Stmt) :
    loopHeader init.unplaced condition.unplaced update.unplaced =
      loopHeader init condition update := by
  have hCondition : checkGo [condition.unplaced] = checkGo [condition] :=
    checkGo_unplaced [condition]
  rw [loopHeader, Stmt.isMissing_unplaced, Stmt.isMissing_unplaced, clauseText_unplaced,
    clauseText_unplaced, hCondition, Expr.isMissing_unplaced, Expr.go_unplaced, ← loopHeader]

/-- Nor does a return. -/
theorem lowerReturn_unplaced (values : List Expr) :
    lowerReturn (values.map Expr.unplaced) = lowerReturn values := by
  rw [lowerReturn, checkGo_unplaced, Expr.map_go_unplaced, ← lowerReturn]

/-- Nor does a throw. -/
theorem lowerThrow_unplaced (value : Expr) : lowerThrow value.unplaced = lowerThrow value := by
  have hValue : checkGo [value.unplaced] = checkGo [value] := checkGo_unplaced [value]
  rw [lowerThrow, hValue, Expr.go_unplaced, ← lowerThrow]

theorem catchBinding_unplaced (name : Expr) : catchBinding name.unplaced = catchBinding name := by
  rw [catchBinding, Expr.isMissing_unplaced, Expr.heldValue_unplaced, ← catchBinding]

theorem bindCaught_unplaced (name : Expr) (type : Option String) :
    bindCaught name.unplaced type = bindCaught name type := by
  rw [bindCaught, catchBinding_unplaced, ← bindCaught]

/-- Nor do parameters. -/
theorem parameterList_unplaced (params : List Expr) (types : List (Option String)) :
    parameterList (params.map Expr.unplaced) types = parameterList params types := by
  rw [parameterList, List.zip_map_left, List.map_map, parameterList]
  simp only [Function.comp_def, Prod.map_fst, Prod.map_snd, Expr.text_unplaced, id]

/-- The signature of a function is made of names and types only. -/
theorem signatureText_unplaced (name : Expr) (params : List Expr) (types : List (Option String))
    (result : Option String) :
    signatureText name.unplaced (params.map Expr.unplaced) types result =
      signatureText name params types result := by
  rw [signatureText, Expr.text_unplaced, parameterList_unplaced, ← signatureText]

theorem statementsOf_unplaced (s : Stmt) :
    statementsOf s.unplaced = (statementsOf s).map Stmt.unplaced := by
  cases s with
  | block token statements => exact Stmt.allUnplaced_eq_map statements
  | program token statements => exact Stmt.allUnplaced_eq_map statements
  | _ => rfl

/-- Whether a body ends in a return does not depend on places. -/
theorem endsInReturn_unplaced (statements : List Stmt) :
    endsInReturn (statements.map Stmt.unplaced) = endsInReturn statements := by
  rw [endsInReturn, List.getLast?_map, endsInReturn]
  cases statements.getLast? with
  | none => rfl
  | some s => cases s <;> rfl

/-- Whether a function gains an error is a matter of its tree. -/
theorem emittedResult_unplaced (result : Option String) (body : Stmt) :
    emittedResult result body.unplaced = emittedResult result body := by
  rw [emittedResult, Stmt.needsErrorHandling_unplaced, ← emittedResult]

/-! ### Statements -/

section Statements

variable {token : Token} {name : Expr} {body cleanup : Stmt}

/-- A function is lowered the same way if its body is. -/
theorem agrees_func {params : List Expr} {types : List (Option String)} {result : Option String}
    (hBody : ∀ names, Agrees (lowerBlock names body) (lowerBlock names body.unplaced)) :
    Agrees (lower (.func token name params types result body))
      (lower (Stmt.func token name params types result body).unplaced) := by
  have hName : checkForms [name.unplaced] = checkForms [name] := checkForms_unplaced [name]
  rw [Stmt.unplaced, lower, lower, emittedResult_unplaced, hName, Expr.text_unplaced,
    ← List.map_take, checkForms_unplaced, signatureText_unplaced, namesOf_unplaced,
    statementsOf_unplaced, endsInReturn_unplaced]
  refine .after fun _ => .ite (.after fun _ => ?_) ?_
  all_goals
    refine .after fun _ => .after fun _ => .before (.inFrame (.after fun names => ?_) _)
    exact (hBody names).before

/-- A try is lowered the same way if its parts are. The warning about dropped clauses shows the line
of the clause, which is left out of what is compared. -/
theorem agrees_tryCatch {catches : List Stmt}
    (hBody : Agrees (lowerStatements body) (lowerStatements body.unplaced))
    (hCatches : Agrees (lowerCatches false catches)
      (lowerCatches false (Stmt.allUnplaced catches)))
    (hCleanup : Agrees (lowerStatements cleanup) (lowerStatements cleanup.unplaced)) :
    Agrees (lower (.tryCatch token body catches cleanup))
      (lower (Stmt.tryCatch token body catches cleanup).unplaced) := by
  have hNone : (Stmt.allUnplaced catches).isEmpty = catches.isEmpty := by
    rw [Stmt.allUnplaced_eq_map, List.isEmpty_map]
  rw [Stmt.unplaced, lower, lower, hNone]
  refine .after fun _ => .after fun _ => .after fun _ => ?_
  refine .bind ((Agrees.inBlock hBody.before []).inFrame _) fun _ => .after fun _ => .ite ?_ ?_
  · exact .after fun _ => hCleanup
  · exact .after fun _ => (hCatches.inBlock []).bind fun _ => .after fun _ => hCleanup

/-- The line of a catch-all goes into an event and nowhere else. -/
theorem agrees_catchClause {type : Option String} {rest : List Stmt} {chained : Bool}
    (hBody : Agrees (lowerStatements body) (lowerStatements body.unplaced))
    (hRest : Agrees (lowerCatches true rest) (lowerCatches true (Stmt.allUnplaced rest))) :
    Agrees (lowerCatches chained (.catchClause token name type body :: rest))
      (lowerCatches chained
        ((Stmt.catchClause token name type body).unplaced :: Stmt.allUnplaced rest)) := by
  have hArm : Agrees (do bindCaught name type; lowerStatements body)
      (do bindCaught name type; lowerStatements body.unplaced) := .after fun _ => hBody
  have hDropped : Agrees
      (if !rest.isEmpty then record (.droppedCatches rest.length token.pos.line) else pure ())
      (if !(Stmt.allUnplaced rest).isEmpty then
        record (.droppedCatches (Stmt.allUnplaced rest).length token.unplaced.pos.line)
        else pure ()) := by
    rw [Stmt.allUnplaced_eq_map, List.isEmpty_map]
    exact .ite (agrees_record _ _) (agrees_same _)
  rw [Stmt.unplaced, lowerCatches, lowerCatches, catchBinding_unplaced, bindCaught_unplaced]
  refine .ite ?_ (.ite ?_ ?_)
  · exact .after fun _ => .after fun _ => .after fun _ => (hArm.inBlock []).bind fun _ => hRest
  · exact .after fun _ => (hArm.inBlock []).bind fun _ => .after fun _ => hDropped
  · exact .after fun _ => hBody.bind fun _ => hDropped

/-- A conditional is lowered the same way if its parts are. -/
theorem agrees_conditional {condition : Expr} {consequence alternative : Stmt} (chained : Bool)
    (hConsequence : Agrees (lowerBlock [] consequence) (lowerBlock [] consequence.unplaced))
    (hAlternative : Agrees (lowerElse alternative) (lowerElse alternative.unplaced)) :
    Agrees
      (do
        checkGo [condition]
        emit (.ifOpen chained condition.go)
        lowerBlock [] consequence
        lowerElse alternative)
      (do
        checkGo [condition.unplaced]
        emit (.ifOpen chained condition.unplaced.go)
        lowerBlock [] consequence.unplaced
        lowerElse alternative.unplaced) := by
  have hCondition : checkGo [condition.unplaced] = checkGo [condition] :=
    checkGo_unplaced [condition]
  rw [hCondition, Expr.go_unplaced]
  exact .after fun _ => .after fun _ => hConsequence.bind fun _ => hAlternative

/-- The fault of a misplaced node says what sort of node it is, and not where. -/
theorem agrees_notBlock (s : Stmt) : Agrees (throw (.notBlock s.kind) : LowerM Unit)
    (throw (.notBlock s.unplaced.kind)) := by
  rw [s.kind_unplaced]
  exact agrees_same _

theorem agrees_notCatch (s : Stmt) : Agrees (throw (.notCatch s.kind) : LowerM Unit)
    (throw (.notCatch s.unplaced.kind)) := by
  rw [s.kind_unplaced]
  exact agrees_same _

/-- A statement whose line is found by one step. -/
theorem agrees_simple {s : Stmt} :
    Agrees (do emit (← simple s)) (do emit (← simple s.unplaced)) := by
  rw [simple_unplaced]
  exact agrees_same _

end Statements

mutual

/-- A statement is lowered the same way wherever its tokens stand. The induction is on the tree. -/
theorem lower_agrees : (s : Stmt) → Agrees (lower s) (lower s.unplaced)
  | .package _ _ | .comment _ _ _ => agrees_same (emit _)
  | .missing | .catchClause _ _ _ _ | .program _ _ => agrees_same (emit _)
  | .imports _ paths => agrees_same (importLines paths)
  | .bare value => by
      change Agrees (emit (.unsupported value.kind)) (emit (.unsupported value.unplaced.kind))
      rw [value.kind_unplaced]
      exact agrees_same _
  | .func _ _ _ _ _ body => agrees_func fun names => lowerBlock_agrees names body
  | .ret _ values => by
      rw [Stmt.unplaced, lower, lower, lowerReturn_unplaced]
      exact agrees_same _
  | .throw _ value => by
      rw [Stmt.unplaced, lower, lower, lowerThrow_unplaced]
      exact agrees_same _
  | .block _ statements =>
      .after fun _ => ((lowerAll_agrees statements).inBlock []).before
  | .ifElse _ _ consequence alternative =>
      agrees_conditional false (lowerBlock_agrees [] consequence) (lowerElse_agrees alternative)
  | .loop _ init condition update body => by
      rw [Stmt.unplaced, lower, lower, loopHeader_unplaced]
      refine .inScope (.after fun _ => .after fun _ => ?_)
      exact (lowerBlock_agrees [] body).before
  | .branch token => by
      rw [Stmt.unplaced, lower, lower, Token.unplaced]
      cases token.kind.keyword? with
      | none => exact agrees_same (throw _)
      | some keyword => exact agrees_same (emit (.branch keyword))
  | .tryCatch _ body catches cleanup =>
      agrees_tryCatch (lowerStatements_agrees body) (lowerCatches_agrees false catches)
        (lowerStatements_agrees cleanup)
  | .decl _ _ _ _ _ | .define _ _ _ | .assign _ _ _ _ | .incr _ _ _ | .expr _ _ => agrees_simple

/-- Statements in a row agree one by one. -/
theorem lowerAll_agrees : (statements : List Stmt) →
    Agrees (lowerAll statements) (lowerAll (Stmt.allUnplaced statements))
  | [] => agrees_same (pure ())
  | s :: rest => (lower_agrees s).bind fun _ => lowerAll_agrees rest

theorem lowerBlock_agrees (names : List String) (s : Stmt) :
    Agrees (lowerBlock names s) (lowerBlock names s.unplaced) := by
  have hOther := (agrees_notBlock s).inBlock names
  cases s with
  | missing => exact agrees_same (inBlock names (pure ()))
  | block _ statements => exact (lowerAll_agrees statements).inBlock names
  | program _ statements => exact (lowerAll_agrees statements).inBlock names
  | _ => exact hOther

theorem lowerStatements_agrees (s : Stmt) :
    Agrees (lowerStatements s) (lowerStatements s.unplaced) := by
  have hOther := agrees_notBlock s
  cases s with
  | missing => exact agrees_same (pure ())
  | block _ statements => exact lowerAll_agrees statements
  | program _ statements => exact lowerAll_agrees statements
  | _ => exact hOther

theorem lowerElse_agrees (s : Stmt) : Agrees (lowerElse s) (lowerElse s.unplaced) := by
  have hOther : Agrees (do emit .elseOpen; inBlock [] (throw (.notBlock s.kind)))
      (do emit .elseOpen; inBlock [] (throw (.notBlock s.unplaced.kind))) :=
    .after fun _ => (agrees_notBlock s).inBlock []
  cases s with
  | missing => exact agrees_same (emit .close)
  | ifElse _ _ consequence alternative =>
      exact agrees_conditional true (lowerBlock_agrees [] consequence)
        (lowerElse_agrees alternative)
  | block _ statements =>
      exact .after fun _ => ((lowerAll_agrees statements).inBlock []).before
  | program _ statements =>
      exact .after fun _ => ((lowerAll_agrees statements).inBlock []).before
  | _ => exact hOther

/-- The clauses of a try agree one by one. -/
theorem lowerCatches_agrees (chained : Bool) (clauses : List Stmt) :
    Agrees (lowerCatches chained clauses) (lowerCatches chained (Stmt.allUnplaced clauses)) := by
  cases clauses with
  | nil => exact agrees_same (if chained then emit .close else pure ())
  | cons clause rest =>
      have hOther := agrees_notCatch clause
      cases clause with
      | catchClause _ _ _ body =>
          exact agrees_catchClause (lowerStatements_agrees body) (lowerCatches_agrees true rest)
      | _ => exact hOther

end

/-! ### Programs -/

/-- Blank lines come from the sorts of the statements around them. -/
theorem needsBlankLine_unplaced (previous current : Stmt) :
    needsBlankLine previous.unplaced current.unplaced = needsBlankLine previous current := by
  have hKind : (current.unplaced.kind == .function) = (current.kind == .function) := by
    rw [current.kind_unplaced]
  cases previous <;> first | rfl | exact hKind

/-- A program is lowered the same way statement by statement. -/
theorem lowerTop_agrees (statements : List Stmt) : (previous : Option Stmt) →
    Agrees (lowerTop previous statements)
      (lowerTop (previous.map Stmt.unplaced) (statements.map Stmt.unplaced)) := by
  induction statements with
  | nil => exact fun _ => agrees_same (pure ())
  | cons s rest ih =>
      intro previous
      have hBlank : ((previous.map Stmt.unplaced).map fun p => needsBlankLine p s.unplaced) =
          previous.map fun p => needsBlankLine p s := by
        rw [Option.map_map]
        exact congrArg (previous.map ·) (funext fun p => needsBlankLine_unplaced p s)
      rw [List.map_cons, lowerTop, lowerTop, hBlank]
      refine .ite (.after fun _ => ?_) ?_
      all_goals exact (lower_agrees s).bind fun _ => ih (some s)

/-- What is imported does not depend on places. -/
theorem importedPaths_unplaced (statements : List Stmt) :
    importedPaths (statements.map Stmt.unplaced) = importedPaths statements := by
  induction statements with
  | nil => rfl
  | cons s rest ih =>
      cases s with
      | imports token paths => exact congrArg (paths ++ ·) ih
      | _ => exact ih

/-- An import is extended in the same place. -/
theorem extendFirstImport_unplaced (missing : List String) (statements : List Stmt) :
    extendFirstImport missing (statements.map Stmt.unplaced) =
      (extendFirstImport missing statements).map (List.map Stmt.unplaced) := by
  induction statements with
  | nil => rfl
  | cons s rest ih =>
      have hLater : (extendFirstImport missing (rest.map Stmt.unplaced)).map (s.unplaced :: ·) =
          ((extendFirstImport missing rest).map (s :: ·)).map (List.map Stmt.unplaced) := by
        rw [ih, Option.map_map, Option.map_map]
        rfl
      cases s with
      | imports token paths => rfl
      | _ => exact hLater

/-- A new import comes in at the same place. -/
theorem insertAfterPackage_unplaced (added : Stmt) (statements : List Stmt) :
    insertAfterPackage added.unplaced (statements.map Stmt.unplaced) =
      (insertAfterPackage added statements).map (List.map Stmt.unplaced) := by
  induction statements with
  | nil => rfl
  | cons s rest ih =>
      have hLater : (insertAfterPackage added.unplaced (rest.map Stmt.unplaced)).map
            (s.unplaced :: ·) =
          ((insertAfterPackage added rest).map (s :: ·)).map (List.map Stmt.unplaced) := by
        rw [ih, Option.map_map, Option.map_map]
        rfl
      cases s with
      | package token name => rfl
      | _ => exact hLater

/-- The packages that are missing are a matter of the trees. -/
theorem missingPackages_unplaced (program : Program) :
    missingPackages program.unplaced = missingPackages program := by
  have hThrow : program.unplaced.containsThrow = program.containsThrow :=
    program.toStmt.containsThrow_unplaced
  have hPaths : importedPaths program.unplaced.statements = importedPaths program.statements := by
    rw [Program.unplaced, Stmt.allUnplaced_eq_map, importedPaths_unplaced]
  rw [missingPackages, hThrow, hPaths, ← missingPackages]

/-- The import that comes in has no place in either. -/
theorem withErrorImports_unplaced (program : Program) :
    withErrorImports program.unplaced = (withErrorImports program).map Stmt.unplaced := by
  have hStatements : program.unplaced.statements = program.statements.map Stmt.unplaced :=
    Stmt.allUnplaced_eq_map program.statements
  have hAdded (missing : List String) : Stmt.imports program.unplaced.token missing =
      (Stmt.imports program.token missing).unplaced := rfl
  simp only [withErrorImports, missingPackages_unplaced, hStatements, hAdded,
    extendFirstImport_unplaced, insertAfterPackage_unplaced]
  split
  · rfl
  · cases extendFirstImport (missingPackages program) program.statements with
    | some statements => rfl
    | none => cases insertAfterPackage _ program.statements <;> rfl

/-- The lowering of a program does not look at places but for its warnings. -/
theorem lowerProgram_agrees (program : Program) :
    Agrees (lowerProgram program) (lowerProgram program.unplaced) := by
  rw [lowerProgram, lowerProgram, missingPackages_unplaced, withErrorImports_unplaced]
  refine .ite (.after fun _ => ?_) ?_
  all_goals exact lowerTop_agrees _ none

end Lower

/-- Lowering without positions gives the lines or the fault of lowering with them. -/
theorem Program.result_lower_unplaced (program : Program) :
    program.unplaced.lower.result = program.lower.result := by
  have hRun := Lower.lowerProgram_agrees program Lower.State.init Lower.State.init rfl
  rw [Program.lower, Program.lower]
  cases hLeft : Lower.lowerProgram program Lower.State.init with
  | ok _ s =>
      cases hRight : Lower.lowerProgram program.unplaced Lower.State.init with
      | ok _ t =>
          rw [hLeft, hRight] at hRun
          injection hRun with _ hState
          have hLines : s.silent.lines = t.silent.lines := congrArg Lower.State.lines hState
          exact congrArg (fun lines => Except.ok lines.reverse) hLines.symm
      | error fault t =>
          rw [hLeft, hRight] at hRun
          cases hRun
  | error fault s =>
      cases hRight : Lower.lowerProgram program.unplaced Lower.State.init with
      | ok _ t =>
          rw [hLeft, hRight] at hRun
          cases hRun
      | error fault' t =>
          rw [hLeft, hRight] at hRun
          injection hRun with hFault _
          exact congrArg Except.error hFault.symm

end TryGo
