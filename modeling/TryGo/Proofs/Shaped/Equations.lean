import TryGo.Proofs.Declare.Levels
import TryGo.Proofs.Go.Expr

/-! The lowering of trees of the right shape. The checks that keep other trees out come to nothing,
and what they would read from an expression is there. So each construct is lowered by a fixed
sequence of steps. -/
namespace TryGo

namespace Lower

/-- Nothing is found in expressions that are short enough. -/
theorem checkGo_eq {es : List Expr} (hShort : Expr.anyLongField es = false) :
    checkGo es = pure () := by
  rw [checkGo, hShort]
  rfl

theorem checkForms_eq {es : List Expr} (hShort : Expr.anyLongInteger es = false) :
    checkForms es = pure () := by
  rw [checkForms, hShort]
  rfl

theorem checkGo_singleton {e : Expr} (hShort : e.hasLongField = false) : checkGo [e] = pure () :=
  checkGo_eq ((Expr.anyLongField_singleton e).trans hShort)

theorem missing_or_block {s : Stmt} (hBlock : s.isBlock = true) :
    (s.isMissing || s.isBlock) = true := by
  rw [hBlock, Bool.or_true]

/-- A block is lowered in a scope of its own. -/
theorem lowerBlock_eq {s : Stmt} (hBlock : s.isBlock = true) (names : List String) :
    lowerBlock names s = inBlock names (lowerStatements s) := by
  cases s with
  | block => rfl
  | _ => cases hBlock

/-- A name in the place of a name is written as it is. -/
theorem go_of_isIdent {e : Expr} (hIdent : e.isIdent = true) : e.go = e.text := by
  cases e with
  | ident token name => exact Expr.go_eq _
  | _ => cases hIdent

/-- Names give their texts. -/
theorem namesOf_eq {es : List Expr} (hIdents : ∀ e ∈ es, e.isIdent = true) :
    namesOf es = pure (es.map Expr.text) := by
  have hHeld : es.mapM Expr.heldValue = .ok (es.map fun e => Value.name e.text) := by
    induction es with
    | nil => rfl
    | cons e rest ih =>
        rw [List.forall_mem_cons] at hIdents
        rw [List.mapM_cons, ih hIdents.2]
        cases e with
        | ident token name => rfl
        | _ => cases hIdents.1
  rw [namesOf, hHeld]
  have hNames : (es.map fun e => Value.name e.text).filterMap Value.name? = es.map Expr.text := by
    rw [List.filterMap_map]
    exact congrFun List.filterMap_eq_map es
  exact congrArg (pure : List String → LowerM (List String)) hNames

/-- The expressions of a simple statement of the right shape have Go forms. -/
theorem anyLongField_writtenExprs {s : Stmt} (hShaped : s.Shaped) :
    Expr.anyLongField (writtenExprs s) = false := by
  cases s with
  | decl _ _ _ _ value => exact (Expr.anyLongField_singleton value).trans hShaped.2
  | define _ names values =>
      rw [writtenExprs, Expr.anyLongField_append, Expr.anyLongField_of_isIdent hShaped.1,
        hShaped.2]
      rfl
  | assign _ targets _ values =>
      rw [writtenExprs, Expr.anyLongField_append, hShaped.1, hShaped.2]
      rfl
  | incr _ target _ => exact (Expr.anyLongField_singleton target).trans hShaped
  | expr _ value => exact (Expr.anyLongField_singleton value).trans hShaped
  | _ => rfl

/-- The names that a simple statement declares are those of its line. -/
theorem simple_eq {s : Stmt} (hShaped : s.Shaped) :
    simple s = do
      declare (simpleCode s).declares
      return simpleCode s := by
  have hNames : declaredNames s = pure (simpleCode s).declares := by
    cases s with
    | decl _ _ name _ _ =>
        have hForm : Expr.anyLongInteger [name] = false :=
          Expr.anyLongInteger_of_isIdent (List.forall_mem_singleton.mpr hShaped.1)
        rw [declaredNames, checkForms_eq hForm]
        rfl
    | define _ names _ =>
        rw [declaredNames, namesOf_eq hShaped.1]
        have hTexts : names.map Expr.text = names.map Expr.go :=
          List.map_congr_left fun e hMem => (go_of_isIdent (hShaped.1 e hMem)).symm
        exact congrArg pure hTexts
    | _ => rfl
  rw [simple, hNames, checkGo_eq (anyLongField_writtenExprs hShaped)]
  rfl

/-- A simple statement declares its names before its line is written. -/
theorem emit_simple_eq {s : Stmt} (hShaped : s.Shaped) :
    (do emit (← simple s)) = (do
      declare (simpleCode s).declares
      emit (simpleCode s)) := by
  rw [simple_eq hShaped, bind_assoc]
  rfl

/-- A clause of a loop header declares what its line does, and gives its text. -/
theorem clauseText_eq {s : Stmt} (hShaped : s.Shaped) :
    clauseText s = (do
      (clauseLines s).forM fun line => declare line.declares
      return clauseCodeText s) := by
  rw [clauseText, clauseLines, clauseCodeText]
  split
  · rfl
  · rw [simple_eq hShaped, bind_assoc]
    rfl

/-- The header of a loop declares what its clauses do, and gives their text. -/
theorem loopHeader_eq {init update : Stmt} {condition : Expr} (hInit : init.Shaped)
    (hCondition : condition.hasLongField = false) (hUpdate : update.Shaped) :
    loopHeader init condition update = (do
      (clauseLines init ++ clauseLines update).forM fun line => declare line.declares
      return loopText init condition update) := by
  have hLines : (clauseLines init ++ clauseLines update).forM (fun line => declare line.declares) =
      (do
        (clauseLines init).forM fun line => declare line.declares
        (clauseLines update).forM fun line => declare line.declares) := List.forM_append
  rw [hLines, bind_assoc, loopHeader, loopText, checkGo_singleton hCondition]
  split
  next hBoth =>
    rw [Bool.and_eq_true] at hBoth
    rw [clauseLines, clauseLines, if_pos hBoth.1, if_pos hBoth.2]
    rfl
  · rw [clauseText_eq hInit, clauseText_eq hUpdate]
    simp only [bind_assoc, pure_bind]

/-- A loop writes its header around its body, with the names of its clauses in scope. -/
theorem lower_loop {token : Token} {init update body : Stmt} {condition : Expr}
    (hInit : init.Shaped) (hCondition : condition.hasLongField = false) (hUpdate : update.Shaped)
    (hBlock : body.isBlock = true) :
    lower (.loop token init condition update body) = inScope (do
      (clauseLines init ++ clauseLines update).forM fun line => declare line.declares
      emit (.forOpen (loopText init condition update))
      inBlock [] (lowerStatements body)
      emit .close) := by
  rw [lower, loopHeader_eq hInit hCondition hUpdate, lowerBlock_eq hBlock]
  simp only [bind_assoc, pure_bind]

/-- The check of a condition finds nothing, and its block is one. -/
theorem conditional_eq {condition : Expr} {consequence alternative : Stmt} (chained : Bool)
    (hCondition : condition.hasLongField = false) (hBlock : consequence.isBlock = true) :
    (do
      checkGo [condition]
      emit (.ifOpen chained condition.go)
      lowerBlock [] consequence
      lowerElse alternative) = (do
      emit (.ifOpen chained condition.go)
      inBlock [] (lowerStatements consequence)
      lowerElse alternative) := by
  rw [checkGo_singleton hCondition, pure_bind, lowerBlock_eq hBlock]

/-- A conditional that stands alone opens with its own keyword. -/
theorem lower_ifElse {token : Token} {condition : Expr} {consequence alternative : Stmt}
    (hCondition : condition.hasLongField = false) (hBlock : consequence.isBlock = true) :
    lower (.ifElse token condition consequence alternative) = (do
      emit (.ifOpen false condition.go)
      inBlock [] (lowerStatements consequence)
      lowerElse alternative) := conditional_eq false hCondition hBlock

/-- One behind an else goes on from there. -/
theorem lowerElse_ifElse {token : Token} {condition : Expr} {consequence alternative : Stmt}
    (hCondition : condition.hasLongField = false) (hBlock : consequence.isBlock = true) :
    lowerElse (.ifElse token condition consequence alternative) = (do
      emit (.ifOpen true condition.go)
      inBlock [] (lowerStatements consequence)
      lowerElse alternative) := conditional_eq true hCondition hBlock

/-- A return writes its values, and what its frame adds. -/
theorem lowerReturn_eq {values : List Expr} (hShort : Expr.anyLongField values = false) :
    lowerReturn values = (do
      let frame ← frame?
      let extra := if (frame.map Frame.augmented).getD false then ["nil"] else []
      emit (.ret (values.map Expr.go ++ extra))) := by
  rw [lowerReturn, checkGo_eq hShort, pure_bind]

/-- A throw writes the zero values of its frame in front of its error. -/
theorem lowerThrow_eq {value : Expr} (hShort : value.hasLongField = false) :
    lowerThrow value = (do
      let frame ← frame?
      let results := (frame.map Frame.results).getD []
      emit (.throwReturn (results.dropLast.map zeroValue) value.go)) := by
  rw [lowerThrow, checkGo_singleton hShort, pure_bind]

end Lower

mutual

/-- What has the right shape has blocks in the places of blocks. -/
theorem Stmt.Shaped.formed : (s : Stmt) → s.Shaped → s.Formed
  | .block _ statements, hShaped => Stmt.AllShaped.formed statements hShaped
  | .ifElse _ _ consequence alternative, ⟨_, hBlock, hConsequence, hPlace, hAlternative⟩ =>
      ⟨Lower.missing_or_block hBlock, Stmt.Shaped.formed consequence hConsequence, hPlace,
        Stmt.Shaped.formed alternative hAlternative⟩
  | .loop _ _ _ _ body, ⟨_, _, _, hBlock, hBody⟩ =>
      ⟨Lower.missing_or_block hBlock, Stmt.Shaped.formed body hBody⟩
  | .func _ _ _ _ _ body, ⟨_, _, hBlock, hBody⟩ =>
      ⟨Lower.missing_or_block hBlock, Stmt.Shaped.formed body hBody⟩
  | .tryCatch _ body catches cleanup, ⟨hBlock, hBody, hCatches, hPlace, hCleanup⟩ =>
      ⟨Lower.missing_or_block hBlock, Stmt.Shaped.formed body hBody,
        Stmt.AllClausesShaped.formed catches hCatches, hPlace, Stmt.Shaped.formed cleanup hCleanup⟩
  | .missing, _ | .package _ _, _ | .imports _ _, _ | .decl _ _ _ _ _, _ | .assign _ _ _ _, _
  | .define _ _ _, _ | .ret _ _, _ | .expr _ _, _ | .incr _ _ _, _ | .branch _, _
  | .comment _ _ _, _ | .catchClause _ _ _ _, _ | .throw _ _, _ | .bare _, _
  | .program _ _, _ => trivial

theorem Stmt.AllShaped.formed : (statements : List Stmt) → Stmt.AllShaped statements →
    Stmt.AllFormed statements
  | [], _ => trivial
  | s :: rest, ⟨hFirst, hRest⟩ => ⟨Stmt.Shaped.formed s hFirst, Stmt.AllShaped.formed rest hRest⟩

theorem Stmt.AllClausesShaped.formed : (catches : List Stmt) → Stmt.AllClausesShaped catches →
    Stmt.AllClausesFormed catches
  | [], _ => trivial
  | s :: rest, hClauses => by
      cases s with
      | catchClause _ _ _ body =>
          obtain ⟨-, hBlock, hBody, hRest⟩ := hClauses
          exact ⟨Lower.missing_or_block hBlock, Stmt.Shaped.formed body hBody,
            Stmt.AllClausesShaped.formed rest hRest⟩
      | _ => exact hClauses.elim

end

namespace Lower

/-- A function writes its heading, then in a frame of its own its body and perhaps a last return,
and a brace. -/
theorem lower_func {token : Token} {name : Expr} {params : List Expr}
    {types : List (Option String)} {result : Option String} {body : Stmt}
    (hName : name.isIdent = true) (hParams : ∀ param ∈ params, param.isIdent = true)
    (hBlock : body.isBlock = true) :
    lower (.func token name params types result body) = (do
      let emitted := emittedResult result body
      let augmented := emitted != result
      if augmented then
        record (.augmented name.text
          (if isTyped result then result.getD "" else "(none)") (emitted.getD ""))
      emit (.funcOpen (signatureText name params types emitted))
      inFrame ⟨splitResults emitted, augmented⟩ do
        inBlock (params.map Expr.text) (lowerStatements body)
        if augmented && result.isNone && !endsInReturn (statementsOf body) then
          deeper (emit (.ret ["nil"]))
      emit .close) := by
  have hForm : checkForms [name] = pure () :=
    checkForms_eq (Expr.anyLongInteger_of_isIdent (List.forall_mem_singleton.mpr hName))
  have hTaken : checkForms (params.take types.length) = pure () :=
    checkForms_eq (Expr.anyLongInteger_of_isIdent fun e hMem =>
      hParams e (List.mem_of_mem_take hMem))
  rw [lower]
  simp only [hForm, hTaken, namesOf_eq hParams, lowerBlock_eq hBlock, pure_bind]

/-- What stands for the caught error in a type test. -/
def caughtPattern (name : Expr) : String :=
  match caughtName name with
  | none => "_"
  | some binding => if binding == "" then "_" else binding

/-- What a clause binds is its name, if it has one. -/
theorem catchBinding_eq {name : Expr} (hName : (name.isMissing || name.isIdent) = true) :
    catchBinding name = pure ((caughtName name).map Value.name) := by
  cases name with
  | missing => rfl
  | ident token name =>
      change (pure (if Value.name name == Value.name "_" then none else some (Value.name name)) :
        LowerM (Option Value)) = _
      rw [caughtName]
      by_cases hBlank : name = "_"
      · rw [hBlank]
        rfl
      · rw [if_neg (by simpa using hBlank), if_neg (by simpa using hBlank)]
        rfl
  | _ => cases hName

/-- A clause without a name is matched by the blank one. -/
theorem catchPattern_caughtName (name : Expr) :
    catchPattern ((caughtName name).map Value.name) = pure (caughtPattern name) := by
  rw [caughtPattern]
  cases caughtName name with
  | none => rfl
  | some binding =>
      change (if binding == "" then pure "_" else pure binding) = _
      cases hEmpty : binding == "" <;> simp only [hEmpty] <;> rfl

/-- A clause that binds a name starts with a use of it, and in front of that with its binding if
there is no type test that binds it. -/
theorem bindCaught_eq {name : Expr} (hName : (name.isMissing || name.isIdent) = true)
    (type : Option String) :
    bindCaught name type =
      match caughtName name with
      | none => pure ()
      | some binding =>
          if isTyped type then emit (.use binding)
          else (do
            emit (.bindErr binding)
            declare [binding]
            emit (.use binding)) := by
  rw [bindCaught, catchBinding_eq hName]
  cases caughtName name with
  | none => rfl
  | some binding => cases isTyped type <;> rfl

/-- A clause with a type is an arm with a type test. -/
theorem lowerCatches_typed {token : Token} {name : Expr} {type : Option String} {body : Stmt}
    {rest : List Stmt} (chained : Bool) (hName : (name.isMissing || name.isIdent) = true)
    (hTyped : isTyped type = true) :
    lowerCatches chained (.catchClause token name type body :: rest) = (do
      emit (.catchOpen chained (caughtPattern name) (type.getD ""))
      inBlock [] do
        bindCaught name type
        lowerStatements body
      lowerCatches true rest) := by
  rw [lowerCatches, if_pos hTyped, catchBinding_eq hName, pure_bind, catchPattern_caughtName,
    pure_bind]

/-- A clause without a type is the last one. Behind other arms it is an arm itself. -/
theorem lowerCatches_catchAll {token : Token} {name : Expr} {type : Option String} {body : Stmt}
    {rest : List Stmt} (chained : Bool) (hCatchAll : isTyped type = false) :
    lowerCatches chained (.catchClause token name type body :: rest) = (do
      if chained then
        emit .elseOpen
        inBlock [] do
          bindCaught name type
          lowerStatements body
        emit .close
      else
        bindCaught name type
        lowerStatements body
      if !rest.isEmpty then record (.droppedCatches rest.length token.pos.line)) := by
  rw [lowerCatches, if_neg (by rw [hCatchAll]; exact Bool.false_ne_true)]

end Lower

end TryGo
