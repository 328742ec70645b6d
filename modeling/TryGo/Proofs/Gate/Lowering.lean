import TryGo.Proofs.Gate.Complete
import TryGo.Proofs.Gate.Shape
import TryGo.Proofs.Parse.Source
import TryGo.Proofs.Shaped.Equations
import TryGo.Proofs.Step.Composed

/-! Lowering does not fail on what was read. Whatever a source holds, the statements that are
read from it have the shapes in which lowering meets no fault, and if nothing was reported, every
line that is written has a Go form. -/
namespace TryGo

/-- A result that is there is its own value. -/
theorem eq_ok_getD {ε α : Type} {result : Except ε α} (fallback : α)
    (hSome : result.toOption.isSome = true) : result = .ok (result.toOption.getD fallback) := by
  cases result with
  | ok => rfl
  | error => cases hSome

/-- Whether a line of code has a Go form. -/
def Go.Code.isSupported : Go.Code → Bool
  | .unsupported _ => false
  | _ => true

namespace Lower

/-- A step that ends in a value wherever it starts. If it is clean, it writes no line without a Go
form. -/
abbrev Sound {α : Type} (clean : Prop) (step : LowerM α) : Prop :=
  Composed (fun code => clean → code.isSupported = true) False step

/-! ### Statements -/

section Parts

variable {clean : Prop} {token : Token} {name : Expr} {type : Option String}
  {body cleanup : Stmt} {catches rest : List Stmt}

theorem sound_line {code : Go.Code} (hCode : code.isSupported = true) : Sound clean (emit code) :=
  .emit code fun _ => hCode

/-- A conditional is sound if its arms are. -/
theorem sound_conditional {condition : Expr} {consequence alternative : Stmt} (chained : Bool)
    (hConsequence : Sound clean (lowerStatements consequence))
    (hAlternative : Sound clean (lowerElse alternative)) :
    Sound clean
      (do
        emit (.ifOpen chained condition.go)
        inBlock [] (lowerStatements consequence)
        lowerElse alternative) :=
  .bind (sound_line rfl) fun _ => .bind (.inBlock [] hConsequence) fun _ => hAlternative

/-- The body of a function, and the return that may be written behind it. -/
theorem sound_funcBody (names : List String) (closes : Bool)
    (hBody : Sound clean (lowerStatements body)) :
    Sound clean
      (do
        inBlock names (lowerStatements body)
        if closes then deeper (emit (.ret ["nil"]))) :=
  .bind (.inBlock _ hBody) fun _ => .ite (.deeper (sound_line rfl)) (.value ())

/-- A function is lowered without a fault if its body is. -/
theorem sound_func {params : List Expr} {types : List (Option String)} {result : Option String}
    (hName : name.isIdent = true) (hParams : ∀ param ∈ params, param.isIdent = true)
    (hBlock : body.isBlock = true) (hBody : Sound clean (lowerStatements body)) :
    Sound clean (lower (.func token name params types result body)) := by
  have hRest (frame : Frame) (closes : Bool) (signature : String) : Sound clean
      (do
        emit (.funcOpen signature)
        inFrame frame do
          inBlock (params.map Expr.text) (lowerStatements body)
          if closes then deeper (emit (.ret ["nil"]))
        emit .close) :=
    .bind (sound_line rfl) fun _ => .bind (.inFrame _ (sound_funcBody _ closes hBody)) fun _ =>
      sound_line rfl
  rw [lower_func hName hParams hBlock]
  exact .ite (.bind (.record _) fun _ => hRest _ _ _) (hRest _ _ _)

/-- A try is lowered without a fault if its parts are. -/
theorem sound_tryCatch (hBody : Sound clean (lowerStatements body))
    (hCatches : Sound clean (lowerCatches false catches))
    (hCleanup : Sound clean (lowerStatements cleanup)) :
    Sound clean (lower (.tryCatch token body catches cleanup)) := by
  have hClosure : Sound clean (do lowerStatements body; emit (.ret ["nil"])) :=
    .bind hBody fun _ => sound_line rfl
  rw [lower]
  refine .bind (.isDeclared _) fun reuse => .bind (.declare _) fun _ =>
    .bind (sound_line rfl) fun _ => .bind (.inFrame _ (.inBlock [] hClosure)) fun _ =>
    .bind (sound_line rfl) fun _ => .ite (.bind (sound_line rfl) fun _ => hCleanup) ?_
  exact .bind (sound_line rfl) fun _ => .bind (.inBlock [] hCatches) fun _ =>
    .bind (sound_line rfl) fun _ => hCleanup

theorem sound_bindCaught (hName : (name.isMissing || name.isIdent) = true)
    (type : Option String) : Sound clean (bindCaught name type) := by
  rw [bindCaught_eq hName]
  split
  · exact .value ()
  · exact .ite (sound_line rfl)
      (.bind (sound_line rfl) fun _ => .bind (.declare _) fun _ => sound_line rfl)

/-- An arm of a chain is lowered without a fault if its body and what follows are. -/
theorem sound_catchClause (chained : Bool) (hName : (name.isMissing || name.isIdent) = true)
    (hBody : Sound clean (lowerStatements body))
    (hRest : isTyped type = true → Sound clean (lowerCatches true rest)) :
    Sound clean (lowerCatches chained (.catchClause token name type body :: rest)) := by
  have hArm : Sound clean (do bindCaught name type; lowerStatements body) :=
    .bind (sound_bindCaught hName type) fun _ => hBody
  cases hTyped : isTyped type with
  | true =>
      rw [lowerCatches_typed chained hName hTyped]
      exact .bind (sound_line rfl) fun _ => .bind (.inBlock [] hArm) fun _ => hRest hTyped
  | false =>
      have hDropped : Sound clean
          (if !rest.isEmpty then record (.droppedCatches rest.length token.pos.line)
            else pure ()) := .ite (.record _) (.value ())
      rw [lowerCatches_catchAll chained hTyped]
      refine .ite ?_ (.bind (sound_bindCaught hName type) fun _ => .bind hBody fun _ => hDropped)
      exact .bind (sound_line rfl) fun _ => .bind (.inBlock [] hArm) fun _ =>
        .bind (sound_line rfl) fun _ => hDropped

end Parts

section Statements

variable {clean : Prop}

mutual

/-- A statement of the right shape is lowered without a fault, and its lines have Go forms if no
placeholder is called for. -/
theorem lower_sound : (s : Stmt) → s.Shaped → (clean → s.placeholders = []) →
    Sound clean (lower s)
  | .package _ _, _, _ | .comment _ _ _, _, _ => sound_line rfl
  | .imports _ paths, _, _ =>
      composed_importLines paths (fun _ _ => rfl) (fun _ _ => rfl) (fun _ => rfl) fun _ => rfl
  | .func _ name params types result body, hShaped, hClean => by
      obtain ⟨hName, hParams, hBlock, hBody⟩ := hShaped
      exact sound_func hName hParams hBlock
        (lowerStatements_sound body (missing_or_block hBlock) hBody hClean)
  | .ret _ _, hShaped, _ => by
      rw [lower, lowerReturn_eq hShaped]
      exact .bind .frame? fun _ => sound_line rfl
  | .block _ statements, hShaped, hClean =>
      .bind (sound_line rfl) fun _ =>
        .bind (.inBlock [] (lowerAll_sound statements hShaped hClean)) fun _ => sound_line rfl
  | .ifElse _ condition consequence alternative, hShaped, hClean => by
      obtain ⟨hCondition, hBlock, hConsequence, hPlace, hAlternative⟩ := hShaped
      simp only [Stmt.placeholders, List.append_eq_nil_iff] at hClean
      rw [lower_ifElse hCondition hBlock]
      exact sound_conditional false
        (lowerStatements_sound consequence (missing_or_block hBlock) hConsequence
          fun h => (hClean h).1.2)
        (lowerElse_sound alternative hPlace hAlternative fun h => (hClean h).2)
  | .loop _ init condition update body, hShaped, hClean => by
      obtain ⟨hInit, hCondition, hUpdate, hBlock, hBody⟩ := hShaped
      simp only [Stmt.placeholders, List.append_eq_nil_iff] at hClean
      have hInside := lowerStatements_sound body (missing_or_block hBlock) hBody
        fun h => (hClean h).2
      rw [lower_loop hInit hCondition hUpdate hBlock]
      exact .inScope (.after fun _ => .bind (sound_line rfl) fun _ =>
        .bind (.inBlock [] hInside) fun _ => sound_line rfl)
  | .branch token, hShaped, _ => by
      rw [lower]
      rcases hShaped with hKind | hKind <;> rw [hKind] <;> exact sound_line rfl
  | .tryCatch _ body catches cleanup, hShaped, hClean => by
      obtain ⟨hBlock, hBody, hCatches, hPlace, hCleanup⟩ := hShaped
      simp only [Stmt.placeholders, List.append_eq_nil_iff] at hClean
      exact sound_tryCatch
        (lowerStatements_sound body (missing_or_block hBlock) hBody fun h => (hClean h).1.1)
        (lowerCatches_sound false catches hCatches fun h => (hClean h).1.2)
        (lowerStatements_sound cleanup hPlace hCleanup fun h => (hClean h).2)
  | .throw _ _, hShaped, _ => by
      rw [lower, lowerThrow_eq hShaped]
      exact .bind .frame? fun _ => sound_line rfl
  | .decl _ _ _ _ _, hShaped, _ | .define _ _ _, hShaped, _ | .assign _ _ _ _, hShaped, _
  | .incr _ _ _, hShaped, _ | .expr _ _, hShaped, _ => by
      rw [lower, emit_simple_eq hShaped]
      exact .bind (.declare _) fun _ => sound_line rfl
  | .missing, _, hClean | .catchClause _ _ _ _, _, hClean | .bare _, _, hClean
  | .program _ _, _, hClean => .emit _ fun h => absurd (hClean h) (List.cons_ne_nil _ _)

/-- Statements in a row are sound, each by itself. -/
theorem lowerAll_sound : (statements : List Stmt) → Stmt.AllShaped statements →
    (clean → Stmt.allPlaceholders statements = []) → Sound clean (lowerAll statements)
  | [], _, _ => .value ()
  | s :: rest, hShaped, hClean => by
      simp only [Stmt.allPlaceholders, List.append_eq_nil_iff] at hClean
      exact .bind (lower_sound s hShaped.1 fun h => (hClean h).1) fun _ =>
        lowerAll_sound rest hShaped.2 fun h => (hClean h).2

theorem lowerStatements_sound (s : Stmt) (hPlace : (s.isMissing || s.isBlock) = true)
    (hShaped : s.Shaped) (hClean : clean → s.bodyPlaceholders = []) :
    Sound clean (lowerStatements s) := by
  cases s with
  | missing => exact .value ()
  | block _ statements => exact lowerAll_sound statements hShaped hClean
  | _ => cases hPlace

theorem lowerElse_sound (s : Stmt)
    (hPlace : (s.isMissing || s.isBlock || s.isConditional) = true) (hShaped : s.Shaped)
    (hClean : clean → s.elsePlaceholders = []) : Sound clean (lowerElse s) := by
  cases s with
  | missing => exact sound_line rfl
  | block _ statements =>
      exact .bind (sound_line rfl) fun _ =>
        .bind (.inBlock [] (lowerAll_sound statements hShaped hClean)) fun _ => sound_line rfl
  | ifElse _ condition consequence alternative =>
      obtain ⟨hCondition, hBlock, hConsequence, hNext, hAlternative⟩ := hShaped
      simp only [Stmt.elsePlaceholders, List.append_eq_nil_iff] at hClean
      rw [lowerElse_ifElse hCondition hBlock]
      exact sound_conditional true
        (lowerStatements_sound consequence (missing_or_block hBlock) hConsequence
          fun h => (hClean h).1.2)
        (lowerElse_sound alternative hNext hAlternative fun h => (hClean h).2)
  | _ => cases hPlace

theorem lowerCatches_sound (chained : Bool) : (catches : List Stmt) →
    Stmt.AllClausesShaped catches → (clean → Stmt.clausesPlaceholders catches = []) →
      Sound clean (lowerCatches chained catches)
  | [], _, _ => .ite (sound_line rfl) (.value ())
  | s :: rest, hClauses, hClean => by
      cases s with
      | catchClause token name type body =>
          obtain ⟨hName, hBlock, hBody, hRest⟩ := hClauses
          simp only [Stmt.clausesPlaceholders, List.append_eq_nil_iff] at hClean
          refine sound_catchClause chained hName
            (lowerStatements_sound body (missing_or_block hBlock) hBody fun h => (hClean h).1) ?_
          intro hTyped
          rw [hTyped] at hClean
          exact lowerCatches_sound true rest hRest fun h => (hClean h).2
      | _ => exact hClauses.elim

end

/-! ### Programs -/

/-- The blank lines of a program do not matter. -/
theorem lowerTop_sound (statements : List Stmt) (hShaped : Stmt.AllShaped statements)
    (hClean : clean → Stmt.allPlaceholders statements = []) (previous : Option Stmt) :
    Sound clean (lowerTop previous statements) := by
  induction statements generalizing previous with
  | nil => exact .value ()
  | cons s rest ih =>
      simp only [Stmt.allPlaceholders, List.append_eq_nil_iff] at hClean
      have hRest : Sound clean (do lower s; lowerTop (some s) rest) :=
        .bind (lower_sound s hShaped.1 fun h => (hClean h).1) fun _ =>
          ih hShaped.2 (fun h => (hClean h).2) (some s)
      exact .ite (.bind (sound_line rfl) fun _ => hRest) hRest

end Statements

/-- Nothing but imports comes in when one is extended. -/
theorem mem_extendFirstImport {missing : List String} {statements extended : List Stmt}
    (hExtended : extendFirstImport missing statements = some extended) :
    ∀ s ∈ extended, s ∈ statements ∨ ∃ token paths, s = .imports token paths := by
  fun_induction extendFirstImport missing statements generalizing extended with
  | case1 => cases hExtended
  | case2 token paths rest =>
      cases hExtended
      intro s hMem
      rcases List.mem_cons.mp hMem with rfl | hMem
      · exact .inr ⟨_, _, rfl⟩
      · exact .inl (List.mem_cons_of_mem _ hMem)
  | case3 first rest hOther ih =>
      obtain ⟨tail, hTail, rfl⟩ := Option.map_eq_some_iff.mp hExtended
      intro s hMem
      rcases List.mem_cons.mp hMem with rfl | hMem
      · exact .inl List.mem_cons_self
      · exact (ih hTail s hMem).imp_left (List.mem_cons_of_mem first)

/-- Nothing but the import comes in when it is inserted. -/
theorem mem_insertAfterPackage {added : Stmt} {statements inserted : List Stmt}
    (hInserted : insertAfterPackage added statements = some inserted) :
    ∀ s ∈ inserted, s ∈ statements ∨ s = added := by
  fun_induction insertAfterPackage added statements generalizing inserted with
  | case1 => cases hInserted
  | case2 token name rest =>
      cases hInserted
      intro s hMem
      rcases List.mem_cons.mp hMem with rfl | hMem
      · exact .inl List.mem_cons_self
      · exact (List.mem_cons.mp hMem).symm.imp_left (List.mem_cons_of_mem _)
  | case3 first rest hOther ih =>
      obtain ⟨tail, hTail, rfl⟩ := Option.map_eq_some_iff.mp hInserted
      intro s hMem
      rcases List.mem_cons.mp hMem with rfl | hMem
      · exact .inl List.mem_cons_self
      · exact (ih hTail s hMem).imp_left (List.mem_cons_of_mem first)

section Filter

/-! What is no import stands in the same order with the added imports and without them. -/

variable {p : Stmt → Bool} (hImports : ∀ token paths, p (.imports token paths) = false)
include hImports

/-- Whatever is no import stays as it was. -/
theorem filter_extendFirstImport {missing : List String} {statements extended : List Stmt}
    (hExtended : extendFirstImport missing statements = some extended) :
    extended.filter p = statements.filter p := by
  fun_induction extendFirstImport missing statements generalizing extended with
  | case1 => cases hExtended
  | case2 token paths rest =>
      cases hExtended
      rw [List.filter_cons_of_neg (Bool.not_eq_true _ ▸ hImports token _),
        List.filter_cons_of_neg (Bool.not_eq_true _ ▸ hImports token paths)]
  | case3 first rest hOther ih =>
      obtain ⟨tail, hTail, rfl⟩ := Option.map_eq_some_iff.mp hExtended
      rw [List.filter_cons, List.filter_cons, ih hTail]

/-- An import that comes in leaves the rest in its order. -/
theorem filter_insertAfterPackage {token : Token} {paths : List String}
    {statements inserted : List Stmt}
    (hInserted : insertAfterPackage (.imports token paths) statements = some inserted) :
    inserted.filter p = statements.filter p := by
  fun_induction insertAfterPackage (.imports token paths) statements generalizing inserted with
  | case1 => cases hInserted
  | case2 =>
      cases hInserted
      rw [List.filter_cons, List.filter_cons_of_neg (Bool.not_eq_true _ ▸ hImports token paths),
        ← List.filter_cons]
  | case3 first rest hOther ih =>
      obtain ⟨tail, hTail, rfl⟩ := Option.map_eq_some_iff.mp hInserted
      rw [List.filter_cons, List.filter_cons, ih hTail]

/-- What the program holds beside imports stays as it was. -/
theorem filter_withErrorImports (program : Program) :
    (withErrorImports program).filter p = program.statements.filter p := by
  rw [withErrorImports]
  split
  · rfl
  split
  next hExtended => exact filter_extendFirstImport hImports hExtended
  next =>
    cases hInserted : insertAfterPackage (.imports program.token (missingPackages program))
        program.statements with
    | none => exact List.filter_cons_of_neg (Bool.not_eq_true _ ▸ hImports program.token _)
    | some inserted => exact filter_insertAfterPackage hImports hInserted

end Filter

/-- Only import statements are added to a program for its throws. -/
theorem mem_withErrorImports (program : Program) :
    ∀ s ∈ withErrorImports program,
      s ∈ program.statements ∨ ∃ token paths, s = .imports token paths := by
  intro s hMem
  rw [withErrorImports] at hMem
  split at hMem
  · exact .inl hMem
  split at hMem
  next hExtended => exact mem_extendFirstImport hExtended s hMem
  next =>
    cases hInserted : insertAfterPackage (.imports program.token (missingPackages program))
        program.statements with
    | none =>
        rw [hInserted] at hMem
        rcases List.mem_cons.mp hMem with rfl | hMem
        · exact .inr ⟨_, _, rfl⟩
        · exact .inl hMem
    | some inserted =>
        rw [hInserted] at hMem
        rcases mem_insertAfterPackage hInserted s hMem with hMem | rfl
        · exact .inl hMem
        · exact .inr ⟨_, _, rfl⟩

theorem allPlaceholders_eq_nil_iff {statements : List Stmt} :
    Stmt.allPlaceholders statements = [] ↔ ∀ s ∈ statements, s.placeholders = [] := by
  induction statements with
  | nil => simp [Stmt.allPlaceholders]
  | cons s rest ih =>
      rw [Stmt.allPlaceholders, List.append_eq_nil_iff, ih, List.forall_mem_cons]

/-- A program of well-shaped statements is lowered without a fault, and its lines have Go forms if
no placeholder is called for. -/
theorem lowerProgram_sound {clean : Prop} {program : Program}
    (hShaped : Stmt.AllShaped program.statements) (hClean : clean → program.placeholders = []) :
    Sound clean (lowerProgram program) := by
  have hAll : Stmt.AllShaped (withErrorImports program) := by
    rw [Stmt.allShaped_iff] at hShaped ⊢
    intro s hMem
    rcases mem_withErrorImports program s hMem with hMem | ⟨token, paths, rfl⟩
    · exact hShaped s hMem
    · trivial
  have hNone (h : clean) : Stmt.allPlaceholders (withErrorImports program) = [] := by
    have hEmpty := hClean h
    rw [Program.placeholders, allPlaceholders_eq_nil_iff] at hEmpty
    rw [allPlaceholders_eq_nil_iff]
    intro s hMem
    rcases mem_withErrorImports program s hMem with hMem | ⟨token, paths, rfl⟩
    · exact hEmpty s hMem
    · rfl
  have hTop := lowerTop_sound _ hAll hNone none
  exact .ite (.bind (.record _) fun _ => hTop) hTop

/-- Where lowering starts has no say in whether it goes through. -/
theorem exists_lowerProgram {program : Program} (hShaped : Stmt.AllShaped program.statements)
    (s : State) : ∃ s', lowerProgram program s = .ok () s' := by
  obtain ⟨⟨⟩, s', hRun⟩ := (lowerProgram_sound hShaped False.elim).exists_ok s
  exact ⟨s', hRun⟩

end Lower

/-- Reading a source without a report gives a program that is complete, for which no placeholder
is called for. And whatever reading gives, with or without reports, it is lowered without a
fault; without a report every line of the outcome has a Go form. -/
theorem lower_of_parse (source : String) (program : Program)
    (hResult : (parse source).result = .ok program) :
    ((parse source).reports = [] → program.Complete ∧ program.placeholders = [])
      ∧ ∃ lines, program.lower.result = .ok lines
        ∧ ((parse source).reports = [] →
          ∀ line ∈ lines, ∀ kind, line.code ≠ .unsupported kind) := by
  have hComplete (hReports : (parse source).reports = []) : program.Complete := by
    obtain ⟨items, -, hFits, hTrees⟩ := exists_items_of_parse hResult hReports
    rw [Program.Complete, ← hTrees]
    exact items.allComplete_trees .eof hFits
  have hNone (hReports : (parse source).reports = []) : program.placeholders = [] :=
    Stmt.AllComplete.placeholders program.statements (hComplete hReports)
  have hSound := Lower.lowerProgram_sound (Parse.allShaped_readFrom hResult) hNone
  obtain ⟨⟨⟩, s, hRun⟩ := hSound.exists_ok Lower.State.init
  refine ⟨fun hReports => ⟨hComplete hReports, hNone hReports⟩, s.lines.reverse, ?_, ?_⟩
  · rw [Program.lower, hRun]
  · intro hReports line hMem kind hCode
    obtain ⟨added, hLines, hAdded⟩ := (hSound.restores hRun).adds
    obtain rfl : s.lines = added := hLines.trans (List.append_nil added)
    have hSupported := (hAdded line (List.mem_reverse.mp hMem)).2 hReports
    rw [hCode] at hSupported
    cases hSupported

/-- A source with every sort of hole that may stay open: a loop without clauses, a catch-all that
binds nothing, parameters that share a type, and a function without a result. -/
def openSource : String :=
  "var a int; func f(a, b int) \x7b for \x7b break \x7d; "
    ++ "try \x7b throw a + b \x7d catch \x7b x := 1 \x7d \x7d"

/-- A source that breaks off in one construct after the other, so that its tree has holes. -/
def brokenSource : String := "func f( \x7b for a b; if ) x.1 := \x7d; throw"

/-- A source that is read without a report is lowered without a placeholder. -/
theorem lower_of_parse_openSource :
    (∃ program, (parse openSource).result = .ok program ∧ (parse openSource).reports = []
      ∧ program.Complete ∧ ∃ lines, program.lower.result = .ok lines
        ∧ ∀ line ∈ lines, ∀ kind, line.code ≠ .unsupported kind)
    ∧ ∃ program, (parse brokenSource).result = .ok program ∧ (parse brokenSource).reports ≠ []
      ∧ ∃ lines, program.lower.result = .ok lines := by
  constructor
  · obtain ⟨program, hResult, hReports, -⟩ :=
      Parse.Reading.exists_ok (parse openSource) (fun _ => true) (by decide +kernel)
    obtain ⟨hComplete, lines, hLines, hSupported⟩ := lower_of_parse openSource program hResult
    exact ⟨program, hResult, hReports, (hComplete hReports).1, lines, hLines, hSupported hReports⟩
  · obtain ⟨program, hResult, -⟩ :=
      Parse.exists_ok_of_test (parse brokenSource).result (fun _ => true) (by decide +kernel)
    obtain ⟨-, lines, hLines, -⟩ := lower_of_parse brokenSource program hResult
    exact ⟨program, hResult, by decide +kernel, lines, hLines⟩

end TryGo
