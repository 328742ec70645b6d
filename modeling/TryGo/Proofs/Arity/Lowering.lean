import Mathlib.Data.List.Forall2
import TryGo.Proofs.Arity.Uses
import TryGo.Proofs.Gate.Lowering
import TryGo.Proofs.Step.Account

/-! Lowering gives every return and throw the values that its function returns. A run is described
by the uses of results in the lines that it adds; the frames on the stack are those of the
enclosure, and a run leaves them as it found them. -/
namespace TryGo

namespace Lower

/-- The frame in which the statements of an enclosure are lowered. -/
def frameOf : Enclosure → Option Frame
  | .outside => none
  | .function result body =>
      some ⟨splitResults (emittedResult result body), emittedResult result body != result⟩
  | .tryBody => some ⟨[errorType], false⟩

def useTexts (lines : List Go.Line) : List String :=
  (lines.filter fun line => line.code.usesResults).map fun line => line.code.text

/-- The uses of results in lines that are written in an enclosure. -/
def useAccount (enclosure : Enclosure) : Account (List ResultUse) where
  Covers _ frame := frame = frameOf enclosure
  Amounts _ lines uses := List.Forall₂ ResultUse.WrittenAs uses (useTexts lines)
  none := []
  both uses more := uses ++ more
  none_both := List.nil_append
  both_none := List.append_nil
  amounts_nil _ := .nil
  amounts_append hFirst hMore := by
    rw [useTexts, List.filter_append, List.map_append]
    exact List.rel_append hFirst hMore

/-- Whether a step that ends in a value adds the lines of some uses, and no other headings and
returns. -/
abbrev Writes {α : Type} (enclosure : Enclosure) (step : LowerM α) (uses : List ResultUse) : Prop :=
  (useAccount enclosure).Adds step uses

section Steps

variable {enclosure : Enclosure} {body : LowerM Unit} {uses : List ResultUse} {code : Go.Code}

/-- A line that is neither a heading nor a return. -/
theorem writes_plain (hOther : code.usesResults = false) : Writes enclosure (emit code) [] := by
  refine .emit fun depth _ _ => ?_
  have hNone : useTexts [⟨depth, code⟩] = [] := by
    simp only [useTexts, List.filter_cons, hOther, Bool.false_eq_true, if_false]
    rfl
  change List.Forall₂ _ _ (useTexts _)
  rw [hNone]
  exact .nil

/-- The line of a use. -/
theorem writes_use {use : ResultUse} (hUse : code.usesResults = true)
    (hWritten : use.WrittenAs code.text) : Writes enclosure (emit code) [use] := by
  refine .emit fun depth _ _ => ?_
  have hOne : useTexts [⟨depth, code⟩] = [code.text] := by
    simp only [useTexts, List.filter_cons, hUse, if_true]
    rfl
  change List.Forall₂ _ _ (useTexts _)
  rw [hOne]
  exact .cons hWritten .nil

theorem Writes.inBlock (hBody : Writes enclosure body uses) (names : List String) :
    Writes enclosure (inBlock names body) uses := Account.Adds.inBlock hBody names id id

/-- A step in a frame of its own uses the results of that frame. -/
theorem Writes.inFrame {inner : Enclosure} {frame : Frame} (hBody : Writes inner body uses)
    (hInner : frameOf inner = some frame) : Writes enclosure (inFrame frame body) uses :=
  Account.Adds.inFrame hBody frame (fun _ => hInner.symm) id

/-- An import writes no result. -/
theorem writes_importLines (paths : List String) : Writes enclosure (importLines paths) [] :=
  importLines_of (P := fun step => Writes enclosure step []) .silent (fun _ => writes_plain rfl)
    (fun _ => writes_plain rfl) (writes_plain rfl) (writes_plain rfl)
    (fun hFirst hNext => hFirst.before fun _ => hNext) (fun hInside => hInside.deeper id id) paths

/-- A simple statement writes no result. -/
theorem writes_simple (s : Stmt) : Writes enclosure (do emit (← simple s)) [] :=
  .simple (writes_plain (by cases s <;> rfl))

/-- What a clause binds is no use of a result. -/
theorem writes_bindCaught (name : Expr) (type : Option String) :
    Writes enclosure (bindCaught name type) [] := by
  refine .behind fun value => ?_
  cases value with
  | none => exact .silent
  | some value =>
      refine .behind fun binding => .ite (fun _ => ?_) fun _ => writes_plain rfl
      exact (writes_plain rfl).before fun _ => .behind fun _ => writes_plain rfl

end Steps

/-! ### Returns and throws -/

/-- Whether the body of the function around holds blocks where it should. -/
def FormedAround : Enclosure → Prop
  | .function _ body => body.Formed
  | .outside | .tryBody => True

/-- Whether a throw may stand in an enclosure: in a function only if it is one that raises. -/
def Raising : Enclosure → Prop
  | .function _ body => body.raises = true
  | .outside | .tryBody => True

section Statements

variable {enclosure : Enclosure}

/-- A return has its own values, and in a function that gained an error a nil behind them. -/
theorem writes_lowerReturn (values : List Expr) (hAround : FormedAround enclosure) :
    Writes enclosure (lowerReturn values) [.ret enclosure values] := by
  refine .lowerReturn fun depth frame hFrame => writes_use rfl ?_
  obtain rfl : frame = frameOf enclosure := hFrame
  cases enclosure with
  | outside | tryBody =>
      change Go.Code.returnText (values.map Expr.go ++ []) = _
      rw [List.append_nil]
  | function result body =>
      intro results hDeclares
      have hSame := emittedResult_eq_iff hDeclares hAround
      change Go.Code.returnText (values.map Expr.go
        ++ if (emittedResult result body != result) = true then ["nil"] else []) = _
      by_cases hResult : emittedResult result body = result
      · rw [if_pos (hSame.mp hResult), hResult, bne_self_eq_false]
        rfl
      · rw [if_neg fun hOther => hResult (hSame.mpr hOther), if_pos (bne_iff_ne.mpr hResult)]

/-- A throw has a zero value for each result but the last, and a new error for that. -/
theorem writes_lowerThrow (value : Expr) (hAround : FormedAround enclosure)
    (hRaising : Raising enclosure) :
    Writes enclosure (lowerThrow value) [.throw enclosure value] := by
  refine .lowerThrow fun depth frame hFrame => writes_use rfl ?_
  obtain rfl : frame = frameOf enclosure := hFrame
  cases enclosure with
  | outside | tryBody => rfl
  | function result body =>
      intro results hDeclares
      have hResults : splitResults (emittedResult result body) = emittedResults results body :=
        splitResults_of_declares (declares_emittedResult hDeclares hAround)
      have hNonempty : emittedResults results body ≠ [] := by
        rw [emittedResults, if_pos (show body.raises = true from hRaising)]
        exact withError_ne_nil results
      refine ⟨_, ?_, rfl, ?_⟩
      · rw [List.length_append, List.length_map, List.length_dropLast, List.length_singleton]
        exact Nat.sub_add_cancel (List.length_pos_iff.mpr hNonempty)
      · change Go.Code.returnText ((splitResults (emittedResult result body)).dropLast.map zeroValue
          ++ [Go.Code.thrownError value.go]) = _
        rw [hResults]

/-- A final return writes the one result that was added. -/
theorem writes_closing : Writes enclosure (emit (.ret ["nil"])) [.closing] := writes_use rfl rfl

/-- The uses of a function are its heading, those of its body, and a closing return if it gained
its only result and falls through. -/
theorem writes_func {token : Token} {name : Expr} {params : List Expr}
    {types : List (Option String)} {result : Option String} {body : Stmt} (hFormed : body.Formed)
    (hBody : ∀ names, Writes (.function result body) (lowerBlock names body)
      (body.resultUses (.function result body))) :
    Writes enclosure (lower (.func token name params types result body))
      ((Stmt.func token name params types result body).resultUses enclosure) := by
  have hFalls : (emittedResult result body != result && result.isNone
      && !endsInReturn (statementsOf body)) = fallsThrough result body := by
    cases result with
    | none =>
        rw [emittedResult, body.needsErrorHandling_eq hFormed, fallsThrough]
        cases body.raises <;> rfl
    | some text => rw [fallsThrough, Option.isNone_some, Bool.and_false, Bool.and_false]
  have hHeading : (ResultUse.heading name params types result body).WrittenAs
      (Go.Code.funcOpen (signatureText name params types (emittedResult result body))).text :=
    fun _ hDeclares => ⟨_, declares_emittedResult hDeclares hFormed, rfl⟩
  have hInside : Writes (.function result body)
      (do
        lowerBlock (← namesOf params) body
        if fallsThrough result body then deeper (emit (.ret ["nil"])))
      (body.resultUses (.function result body)
        ++ if fallsThrough result body then [.closing] else []) := by
    refine .behind fun names => (hBody names).seq ?_
    split
    · exact writes_closing.deeper id id
    · exact .silent
  rw [← hFalls] at hInside
  refine (Account.Adds.func (writes_use rfl hHeading) (hInside.inFrame rfl)
    (writes_plain rfl)).congr ?_
  rw [hFalls]
  exact congrArg _ (List.append_nil _)

/-- The body of a try is lowered as a closure, and the rest of it as what is around it. -/
theorem writes_tryCatch {token : Token} {body cleanup : Stmt} {catches : List Stmt}
    (hBody : Writes .tryBody (lowerStatements body) (body.resultUses .tryBody))
    (hCatches : Writes enclosure (lowerCatches false catches)
      (Stmt.clausesResultUses enclosure catches))
    (hCleanup : Writes enclosure (lowerStatements cleanup) (cleanup.resultUses enclosure)) :
    Writes enclosure (lower (.tryCatch token body catches cleanup))
      ((Stmt.tryCatch token body catches cleanup).resultUses enclosure) := by
  have hClosure : Writes .tryBody (do lowerStatements body; emit (.ret ["nil"]))
      (body.resultUses .tryBody ++ [.closing]) := hBody.seq writes_closing
  have hChain : Writes enclosure
      (do
        emit .errCheck
        inBlock [] (lowerCatches false catches)
        emit .close) (Stmt.clausesResultUses enclosure catches) :=
    (writes_plain rfl).before fun _ => (hCatches.inBlock []).after (writes_plain rfl)
  have hDiscard (hNone : catches = []) :
      Writes enclosure (emit .discardErr) (Stmt.clausesResultUses enclosure catches) :=
    hNone ▸ writes_plain rfl
  refine (Account.Adds.tryCatch (fun _ => writes_plain rfl) ((hClosure.inBlock []).inFrame rfl)
    (writes_plain rfl) hDiscard (fun _ => hChain) hCleanup).congr ?_
  exact List.append_assoc _ _ _

/-- Clauses are lowered up to the first catch-all. -/
theorem writes_catchClause {token : Token} {name : Expr} {type : Option String} {body : Stmt}
    {rest : List Stmt} {chained : Bool}
    (hBody : Writes enclosure (lowerStatements body) (body.resultUses enclosure))
    (hRest : Writes enclosure (lowerCatches true rest) (Stmt.clausesResultUses enclosure rest)) :
    Writes enclosure (lowerCatches chained (.catchClause token name type body :: rest))
      (Stmt.clausesResultUses enclosure (.catchClause token name type body :: rest)) := by
  have hArm : Writes enclosure (do bindCaught name type; lowerStatements body)
      (body.resultUses enclosure) := (writes_bindCaught name type).before fun _ => hBody
  rw [Stmt.clausesResultUses]
  cases hTyped : isTyped type with
  | true => exact .typedClause hTyped (fun _ => writes_plain rfl) (hArm.inBlock []) hRest
  | false =>
      cases chained with
      | true => exact .lastClause hTyped (writes_plain rfl) (hArm.inBlock []) (writes_plain rfl)
      | false => exact .onlyClause hTyped (hArm.congr (List.append_nil _).symm)

/-- A conditional writes the results of its arms in a row. -/
theorem writes_conditional {condition : Expr} {consequence alternative : Stmt} (chained : Bool)
    (hConsequence : Writes enclosure (lowerBlock [] consequence) (consequence.resultUses enclosure))
    (hAlternative : Writes enclosure (lowerElse alternative) (alternative.resultUses enclosure)) :
    Writes enclosure
      (do
        checkGo [condition]
        emit (.ifOpen chained condition.go)
        lowerBlock [] consequence
        lowerElse alternative)
      (consequence.resultUses enclosure ++ alternative.resultUses enclosure) :=
  .conditional (writes_plain rfl) hConsequence hAlternative

end Statements

mutual

/-- A statement writes its uses, if the function around it returns an error whenever the statement
raises one. -/
theorem lower_writes (enclosure : Enclosure) (hAround : FormedAround enclosure) : (s : Stmt) →
    s.Formed → (s.raises = true → Raising enclosure) →
      Writes enclosure (lower s) (s.resultUses enclosure)
  | .package _ _, _, _ | .comment _ _ _, _, _ => writes_plain rfl
  | .imports _ paths, _, _ => writes_importLines paths
  | .func _ _ _ _ result body, hFormed, _ =>
      writes_func hFormed.2 fun names =>
        lowerBlock_writes (.function result body) hFormed.2 names body hFormed.1 hFormed.2 id
  | .ret _ values, _, _ => writes_lowerReturn values hAround
  | .block token statements, hFormed, hRaising => by
      rw [Stmt.raises_block] at hRaising
      exact (writes_plain rfl).before fun _ =>
        ((lowerAll_writes enclosure hAround statements hFormed hRaising).inBlock []).after
          (writes_plain rfl)
  | .ifElse _ _ consequence alternative, hFormed, hRaising => by
      obtain ⟨hPlace, hConsequence, hNext, hAlternative⟩ := hFormed
      rw [Stmt.raises_ifElse, Bool.or_eq_true] at hRaising
      exact writes_conditional false
        (lowerBlock_writes enclosure hAround [] consequence hPlace hConsequence
          fun h => hRaising (.inl h))
        (lowerElse_writes enclosure hAround alternative hNext hAlternative
          fun h => hRaising (.inr h))
  | .loop _ init condition update body, hFormed, hRaising => by
      rw [Stmt.raises_loop] at hRaising
      have hBody := lowerBlock_writes enclosure hAround [] body hFormed.1 hFormed.2 hRaising
      exact (Account.Adds.loop (fun _ => writes_plain rfl) hBody (writes_plain rfl)).congr
        (List.append_nil _)
  | .branch token, _, _ => by
      rw [lower]
      split
      · exact writes_plain rfl
      · exact .fault _
  | .tryCatch _ body catches cleanup, hFormed, hRaising => by
      obtain ⟨hPlace, hBody, hCatches, hLast, hCleanup⟩ := hFormed
      have hRaises : Raising enclosure := hRaising rfl
      exact writes_tryCatch
        (lowerStatements_writes .tryBody trivial body hPlace hBody fun _ => trivial)
        (lowerCatches_writes enclosure hAround false catches hCatches hRaises)
        (lowerStatements_writes enclosure hAround cleanup hLast hCleanup fun _ => hRaises)
  | .throw _ value, _, hRaising => writes_lowerThrow value hAround (hRaising rfl)
  | .decl _ _ _ _ _, _, _ | .define _ _ _, _, _ | .assign _ _ _ _, _, _ | .incr _ _ _, _, _
  | .expr _ _, _, _ => writes_simple _
  | .missing, _, _ | .catchClause _ _ _ _, _, _ | .bare _, _, _ | .program _ _, _, _ =>
      writes_plain rfl

/-- Statements in a row write their results in a row. -/
theorem lowerAll_writes (enclosure : Enclosure) (hAround : FormedAround enclosure) :
    (statements : List Stmt) → Stmt.AllFormed statements →
      (statements.any Stmt.raises = true → Raising enclosure) →
        Writes enclosure (lowerAll statements) (Stmt.allResultUses enclosure statements)
  | [], _, _ => .value ()
  | s :: rest, hFormed, hRaising => by
      rw [List.any_cons, Bool.or_eq_true] at hRaising
      exact (lower_writes enclosure hAround s hFormed.1 fun h => hRaising (.inl h)).seq
        (lowerAll_writes enclosure hAround rest hFormed.2 fun h => hRaising (.inr h))

theorem lowerBlock_writes (enclosure : Enclosure) (hAround : FormedAround enclosure)
    (names : List String) (s : Stmt) (hPlace : (s.isMissing || s.isBlock) = true)
    (hFormed : s.Formed) (hRaising : s.raises = true → Raising enclosure) :
    Writes enclosure (lowerBlock names s) (s.resultUses enclosure) := by
  cases s with
  | missing => exact Writes.inBlock (.value ()) names
  | block _ statements =>
      rw [Stmt.raises_block] at hRaising
      exact (lowerAll_writes enclosure hAround statements hFormed hRaising).inBlock names
  | _ => cases hPlace

theorem lowerStatements_writes (enclosure : Enclosure) (hAround : FormedAround enclosure)
    (s : Stmt) (hPlace : (s.isMissing || s.isBlock) = true) (hFormed : s.Formed)
    (hRaising : s.raises = true → Raising enclosure) :
    Writes enclosure (lowerStatements s) (s.resultUses enclosure) := by
  cases s with
  | missing => exact .value ()
  | block _ statements =>
      rw [Stmt.raises_block] at hRaising
      exact lowerAll_writes enclosure hAround statements hFormed hRaising
  | _ => cases hPlace

theorem lowerElse_writes (enclosure : Enclosure) (hAround : FormedAround enclosure) (s : Stmt)
    (hPlace : (s.isMissing || s.isBlock || s.isConditional) = true) (hFormed : s.Formed)
    (hRaising : s.raises = true → Raising enclosure) :
    Writes enclosure (lowerElse s) (s.resultUses enclosure) := by
  cases s with
  | missing => exact writes_plain rfl
  | block _ statements =>
      rw [Stmt.raises_block] at hRaising
      exact (writes_plain rfl).before fun _ =>
        ((lowerAll_writes enclosure hAround statements hFormed hRaising).inBlock []).after
          (writes_plain rfl)
  | ifElse _ _ consequence alternative =>
      obtain ⟨hBody, hConsequence, hNext, hAlternative⟩ := hFormed
      rw [Stmt.raises_ifElse, Bool.or_eq_true] at hRaising
      exact writes_conditional true
        (lowerBlock_writes enclosure hAround [] consequence hBody hConsequence
          fun h => hRaising (.inl h))
        (lowerElse_writes enclosure hAround alternative hNext hAlternative
          fun h => hRaising (.inr h))
  | _ => cases hPlace

/-- Each clause writes the results of its body, and dropped ones write none. -/
theorem lowerCatches_writes (enclosure : Enclosure) (hAround : FormedAround enclosure)
    (chained : Bool) : (catches : List Stmt) → Stmt.AllClausesFormed catches → Raising enclosure →
      Writes enclosure (lowerCatches chained catches) (Stmt.clausesResultUses enclosure catches)
  | [], _, _ => .ite (fun _ => writes_plain rfl) fun _ => .silent
  | s :: rest, hFormed, hRaising => by
      cases s with
      | catchClause token name type body =>
          obtain ⟨hPlace, hBody, hRest⟩ := hFormed
          exact writes_catchClause
            (lowerStatements_writes enclosure hAround body hPlace hBody fun _ => hRaising)
            (lowerCatches_writes enclosure hAround true rest hRest hRaising)
      | _ => exact hFormed.elim

end

/-! ### Programs -/

/-- The statements of a program stand outside of any function. -/
theorem lowerTop_writes (statements : List Stmt) (hFormed : Stmt.AllFormed statements)
    (previous : Option Stmt) :
    Writes .outside (lowerTop previous statements)
      (Stmt.allResultUses .outside statements) := by
  induction statements generalizing previous with
  | nil => exact .value ()
  | cons s rest ih =>
      have hRest : Writes .outside (do lower s; lowerTop (some s) rest)
          (Stmt.allResultUses .outside (s :: rest)) :=
        (lower_writes .outside trivial s hFormed.1 fun _ => trivial).seq
          (ih hFormed.2 (some s))
      exact .ite (fun _ => (writes_plain rfl).before fun _ => hRest) fun _ => hRest

theorem allFormed_iff {statements : List Stmt} :
    Stmt.AllFormed statements ↔ ∀ s ∈ statements, s.Formed := by
  induction statements with
  | nil => simp [Stmt.AllFormed]
  | cons s rest ih => rw [Stmt.AllFormed, ih, List.forall_mem_cons]

/-- An import that is extended uses no result. -/
theorem allResultUses_extendFirstImport {missing : List String} {statements extended : List Stmt}
    (hExtended : extendFirstImport missing statements = some extended) (enclosure : Enclosure) :
    Stmt.allResultUses enclosure extended = Stmt.allResultUses enclosure statements := by
  fun_induction extendFirstImport missing statements generalizing extended with
  | case1 => cases hExtended
  | case2 token paths rest =>
      cases hExtended
      rfl
  | case3 first rest hOther ih =>
      obtain ⟨tail, hTail, rfl⟩ := Option.map_eq_some_iff.mp hExtended
      rw [Stmt.allResultUses, Stmt.allResultUses, ih hTail]

/-- An import that comes in uses no result. -/
theorem allResultUses_insertAfterPackage {token : Token} {paths : List String}
    {statements inserted : List Stmt}
    (hInserted : insertAfterPackage (.imports token paths) statements = some inserted)
    (enclosure : Enclosure) :
    Stmt.allResultUses enclosure inserted = Stmt.allResultUses enclosure statements := by
  fun_induction insertAfterPackage (.imports token paths) statements generalizing inserted with
  | case1 => cases hInserted
  | case2 =>
      cases hInserted
      rfl
  | case3 first rest hOther ih =>
      obtain ⟨tail, hTail, rfl⟩ := Option.map_eq_some_iff.mp hInserted
      rw [Stmt.allResultUses, Stmt.allResultUses, ih hTail]

/-- The imports that are added use no results. -/
theorem allResultUses_withErrorImports (program : Program) (enclosure : Enclosure) :
    Stmt.allResultUses enclosure (withErrorImports program) =
      Stmt.allResultUses enclosure program.statements := by
  rw [withErrorImports]
  split
  · rfl
  split
  next hExtended => exact allResultUses_extendFirstImport hExtended enclosure
  next =>
    cases hInserted : insertAfterPackage (.imports program.token (missingPackages program))
        program.statements with
    | none => rfl
    | some inserted => exact allResultUses_insertAfterPackage hInserted enclosure

/-- A program writes the results of its statements, imports or not. -/
theorem lowerProgram_writes {program : Program} (hFormed : Stmt.AllFormed program.statements) :
    Writes .outside (lowerProgram program) program.resultUses := by
  have hAll : Stmt.AllFormed (withErrorImports program) := by
    rw [allFormed_iff] at hFormed ⊢
    intro s hMem
    rcases mem_withErrorImports program s hMem with hMem | ⟨token, paths, rfl⟩
    · exact hFormed s hMem
    · trivial
  have hTop := lowerTop_writes (withErrorImports program) hAll none
  rw [allResultUses_withErrorImports] at hTop
  exact .ite (fun _ => .behind fun _ => hTop) fun _ => hTop

end Lower

/-- In what a program is lowered to, every heading has the results of its function, and every
return and throw has a value for each of them: in their order, and with no other headings and
returns between them. A program whose names and selectors are what reading makes them is
lowered. -/
theorem written_resultUses (program : Program) (hFormed : Stmt.AllFormed program.statements) :
    (∀ lines, program.lower.result = .ok lines →
      List.Forall₂ ResultUse.WrittenAs program.resultUses
        ((lines.filter fun line => line.code.usesResults).map fun line => line.code.text))
    ∧ (Stmt.AllShaped program.statements → ∃ lines, program.lower.result = .ok lines) := by
  constructor
  · intro lines hLines
    rw [Program.lower] at hLines
    split at hLines
    next s hRun =>
      cases hLines
      obtain ⟨-, -, lines, hLines, hWritten⟩ :=
        Lower.lowerProgram_writes hFormed Lower.State.init () s rfl hRun
      rw [hLines, List.reverse_append, List.reverse_reverse]
      exact hWritten
    next => cases hLines
  · intro hShaped
    obtain ⟨s, hRun⟩ := Lower.exists_lowerProgram hShaped Lower.State.init
    exact ⟨s.lines.reverse, by rw [Program.lower, hRun]⟩

/-- A function with two results whose body has a try with a dropped clause and another function in
its cleanup. -/
def raisingProgram : Program :=
  let name (text : String) := Expr.ident Token.blank text
  let block := Stmt.block Token.blank
  let clause := Stmt.catchClause Token.blank
  let body := block [.ifElse Token.blank (name "a") (block [.throw Token.blank (name "a")]) .missing]
  let caught := clause (name "e") (some "*E") (block [.ret Token.blank [name "a", name "b"]])
  let rest := clause .missing none (block [.throw Token.blank (name "b")])
  let dropped := clause .missing none (block [.ret Token.blank []])
  let inner := Stmt.func Token.blank (name "g") [] [] none (block [.throw Token.blank (name "a")])
  ⟨Token.blank, [.func Token.blank (name "f") [name "a"] [some "int"] (some "(int, *T)")
    (block [.tryCatch Token.blank body [caught, rest, dropped] (block [inner])])]⟩

/-- Every return and throw of this program is written with as many results as its place asks for. -/
theorem written_resultUses_raisingProgram :
    DeclaresResults (some "(int, *T)") ["int", "*T"]
    ∧ ∃ lines, raisingProgram.lower.result = .ok lines
      ∧ List.Forall₂ ResultUse.WrittenAs raisingProgram.resultUses
        ((lines.filter fun line => line.code.usesResults).map fun line => line.code.text) := by
  have hFormed : Stmt.AllFormed raisingProgram.statements := by
    simp [raisingProgram, Stmt.AllFormed, Stmt.Formed, Stmt.AllClausesFormed, Stmt.isMissing,
      Stmt.isBlock]
  have hShaped : Stmt.AllShaped raisingProgram.statements := by
    simp [raisingProgram, Stmt.AllShaped, Stmt.Shaped, Stmt.AllClausesShaped, Stmt.isMissing,
      Stmt.isBlock, Expr.isIdent, Expr.isMissing, Expr.hasLongField, Expr.anyLongField]
  have hDeclares : DeclaresResults (some "(int, *T)") ["int", "*T"] := by
    refine ⟨.tuple [.named "int", .pointer (.named "T")], ?_, rfl, rfl⟩
    simp only [GoType.Documented, GoType.AllDocumented]
    decide +kernel
  obtain ⟨hWritten, hLowered⟩ := written_resultUses raisingProgram hFormed
  obtain ⟨lines, hLines⟩ := hLowered hShaped
  exact ⟨hDeclares, lines, hLines, hWritten lines hLines⟩

end TryGo
