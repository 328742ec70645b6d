import TryGo.Proofs.Gate.Lowering
import TryGo.Proofs.Reuse.Blocks

/-! A try takes the error of its block exactly if the block has one. The lowering decides that by
its innermost scope, which at every line has exactly the names of the innermost block that the
lines so far have opened. -/
namespace TryGo

namespace Blocks

variable {code : Go.Code} {level : List String} {levels opened : List (List String)}
  {later : List Stmt}

theorem allows_of_not_opensBody {blocks : Blocks} (hBody : code.opensBody = false)
    (hCloses : code.closes = true → 2 ≤ blocks.names.length) : blocks.Allows code where
  closes := hCloses
  due := fun h => absurd h (by rw [hBody]; exact Bool.false_ne_true)
  reuse := by
    rintro reuse rfl
    cases hBody

/-- A line that closes a block or not, as it is chained or not, and opens no body. -/
theorem lead_of_not_opensBody {chained : Bool} (hCloses : code.closes = chained)
    (hBody : code.opensBody = false) (hOpened : opened.length = chained.toNat) :
    Lead ⟨opened ++ level :: levels, later⟩ [code]
      ⟨(if code.opens then [[]] else []) ++ (code.declares ++ level) :: levels, later⟩ := by
  have hAllows : Allows ⟨opened ++ level :: levels, later⟩ code := by
    refine allows_of_not_opensBody hBody fun h => ?_
    rw [hCloses.symm.trans h] at hOpened
    have hOne : opened.length = 1 := hOpened
    rw [List.length_append, hOne, List.length_cons]
    omega
  have hLeft : (if code.closes then (opened ++ level :: levels).tail else opened ++ level :: levels)
      = level :: levels := by
    rw [hCloses]
    cases chained with
    | false => rw [List.eq_nil_of_length_eq_zero hOpened]; rfl
    | true =>
        obtain ⟨inner, rfl⟩ := List.length_eq_one_iff.mp hOpened
        rfl
  have hPass : pass ⟨opened ++ level :: levels, later⟩ code =
      ⟨(if code.opens then [[]] else []) ++ (code.declares ++ level) :: levels, later⟩ := by
    simp only [pass, hLeft, hBody]
    cases code.opens <;> rfl
  rw [← hPass]
  exact .single hAllows

end Blocks

namespace Lower

/-! ### Steps -/

/-- Going over lines that are in place. The functions and tries are due whose bodies the lines open,
and no line leads to a stop. -/
def blockWalk : Walk Stmt Blocks where
  blocks := Blocks.mk
  Goes before codes after := ∃ behind, after = some behind ∧ before.Lead codes behind
  names code level := some (code.declares ++ level)
  Agrees := Eq
  goes_nil before := ⟨before, rfl, .nil before⟩
  goes_append := by
    rintro before middle codes more after ⟨_, ⟨⟩, hFirst⟩ ⟨last, hLast, hNext⟩
    exact ⟨last, hLast, hFirst.append hNext⟩
  goes_stop := by
    rintro before codes more ⟨_, ⟨⟩, _⟩
  goes_line := by
    intro code level levels due hInner
    simp only [Go.Code.isInner, Bool.and_eq_true, Bool.not_eq_true'] at hInner
    obtain ⟨hCloses, hOpens⟩ := hInner
    have hBody : code.opensBody = false := by cases code <;> first | rfl | cases hOpens
    have hLead : Blocks.Lead ⟨[] ++ level :: levels, due⟩ [code] _ :=
      Blocks.lead_of_not_opensBody hCloses hBody rfl
    rw [hOpens] at hLead
    exact ⟨_, rfl, hLead⟩
  goes_open := by
    intro code opened level levels due hOpens hOpened
    have hBody : code.opensBody = false := by cases code <;> first | rfl | cases hOpens
    have hLead : Blocks.Lead ⟨opened ++ level :: levels, due⟩ [code] _ :=
      Blocks.lead_of_not_opensBody rfl hBody hOpened
    cases code <;> first | exact ⟨_, rfl, hLead⟩ | cases hOpens
  goes_close := by
    intro code inner level levels due hClose
    have hCloses : code.closes = true := by rcases hClose with rfl | rfl <;> rfl
    have hBody : code.opensBody = false := by rcases hClose with rfl | rfl <;> rfl
    have hLead : Blocks.Lead ⟨[inner] ++ level :: levels, due⟩ [code] _ :=
      Blocks.lead_of_not_opensBody hCloses hBody rfl
    rcases hClose with rfl | rfl <;> exact ⟨_, rfl, hLead⟩
  names_plain := by
    intro code level hPlain
    cases code <;> first | rfl | cases hPlain
  agrees_refl _ := rfl
  agrees_line := by
    rintro code scope level after _ rfl ⟨⟩
    rfl

/-- Whether a step keeps the scopes and writes lines that keep the open blocks. -/
abbrev Stays (chained : Bool) (step : LowerM Unit) (due : List Stmt) : Prop :=
  blockWalk.Settles chained step true due

/-- Whether a step changes the innermost scope only, and its lines change the innermost block in the
same way. -/
def Grows (step : LowerM Unit) (due : List Stmt) : Prop :=
  ∃ grow : List String → List String, blockWalk.Declares step (fun level => some (grow level)) due

section Statements

variable {token : Token} {name : Expr} {type : Option String}
  {body cleanup : Stmt} {catches rest : List Stmt} {step next : LowerM Unit} {due more : List Stmt}

/-- A step that leaves the open block grows nothing but what it adds. -/
theorem Stays.grows (hStep : Stays false step due) : Grows step due := ⟨id, hStep.declares⟩

/-- Two steps in a row add their blocks in a row. -/
theorem Grows.seq (hStep : Grows step due) (hNext : Grows next more) :
    Grows (do step; next) (due ++ more) := by
  obtain ⟨grow, hStep⟩ := hStep
  obtain ⟨grow', hNext⟩ := hNext
  exact ⟨grow' ∘ grow, hStep.seq hNext⟩

/-- The body of a function starts with its parameters. -/
theorem opens_body {s : Stmt} {signature : String} (hBy : s.OpenedBy (.funcOpen signature)) :
    blockWalk.Opens false (.funcOpen signature) [s] (some s.bodyNames) := by
  intro opened level levels later hOpened
  rw [List.eq_nil_of_length_eq_zero hOpened]
  exact ⟨_, rfl,
    .single ⟨fun h => (nomatch h), fun _ => ⟨s, later, rfl, hBy⟩, fun _ h => (nomatch h)⟩⟩

/-- The names in the header of a loop are those of no block. -/
theorem opens_loop (header : String) : blockWalk.Opens false (.forOpen header) [] (some []) :=
  fun _ _ _ _ hOpened => ⟨_, rfl, Blocks.lead_of_not_opensBody rfl rfl hOpened⟩

/-- A try takes the error of its block exactly if there is one. -/
theorem block_tries (token : Token) (body : Stmt) (catches : List Stmt) (cleanup : Stmt) :
    blockWalk.Tries [.tryCatch token body catches cleanup] fun level => "err" :: level := by
  rintro scope level rfl
  refine ⟨rfl, fun levels later => ⟨_, rfl, .single ⟨fun h => (nomatch h), fun _ => ?_, ?_⟩⟩⟩
  · exact ⟨_, _, rfl, _, rfl⟩
  · rintro _ ⟨⟩
    exact List.contains_iff_mem

/-- A function adds its body and leaves the block around it. -/
theorem func_stays {params : List Expr} {types : List (Option String)} {result : Option String}
    (hShaped : (Stmt.func token name params types result body).Shaped)
    (hBody : Grows (lowerStatements body) body.bodies) :
    Stays false (lower (.func token name params types result body))
      (Stmt.func token name params types result body).bodies := by
  obtain ⟨hName, hParams, hBlock, -⟩ := hShaped
  obtain ⟨grow, hInside⟩ := hBody
  let f := Stmt.func token name params types result body
  have hBy : f.OpenedBy
      (.funcOpen (signatureText name params types (emittedResult result body))) := rfl
  refine Walk.settles_func hName hParams hBlock (opens_body hBy) (fun level hLevel => ?_) hInside
  cases hLevel
  rfl

/-- A try stays in the block around it and adds what its parts do. -/
theorem tryCatch_grows (hBody : Grows (lowerStatements body) body.bodies)
    (hCatches : Grows (lowerCatches false catches) (Stmt.clausesBodies catches))
    (hCleanup : Grows (lowerStatements cleanup) cleanup.bodies) :
    Grows (lower (.tryCatch token body catches cleanup))
      (Stmt.tryCatch token body catches cleanup).bodies := by
  obtain ⟨_, hInside⟩ := hBody
  obtain ⟨_, hClauses⟩ := hCatches
  obtain ⟨last, hLast⟩ := hCleanup
  rw [Stmt.bodies_tryCatch]
  refine ⟨fun level => last ("err" :: level), ?_⟩
  exact Walk.declares_tryCatch (block_tries token body catches cleanup) hInside hClauses
    (fun hEmpty => by rw [hEmpty]; exact ⟨rfl, rfl⟩) hLast

/-- The names of a block after a clause are those of its variable and of its body. -/
theorem exists_clause_eq (name : Expr) (type : Option String) (grow : List String → List String) :
    ∃ grow' : List String → List String,
      (blockWalk.clause name type fun level => some (grow level))
        = fun level => some (grow' level) := by
  unfold Walk.clause Walk.caught
  cases caughtName name with
  | none => exact ⟨grow, rfl⟩
  | some binding =>
      cases isTyped type with
      | true => exact ⟨grow, rfl⟩
      | false => exact ⟨fun level => grow (binding :: level), rfl⟩

/-- A clause with a type is an arm, and the other clauses follow it. -/
theorem typedClause_stays (chained : Bool) (hName : (name.isMissing || name.isIdent) = true)
    (hTyped : isTyped type = true) (hBody : Grows (lowerStatements body) body.bodies)
    (hRest : Stays true (lowerCatches true rest) (Stmt.clausesBodies rest)) :
    Stays chained (lowerCatches chained (.catchClause token name type body :: rest))
      (Stmt.clausesBodies (.catchClause token name type body :: rest)) := by
  obtain ⟨grow, hInside⟩ := hBody
  obtain ⟨grow', hClause⟩ := exists_clause_eq name type grow
  have hArm := Walk.settles_typedClause token chained hName hTyped hInside hRest
  rw [hClause] at hArm
  rw [Stmt.clausesBodies_cons, if_pos hTyped]
  exact hArm

/-- A catch-all behind other clauses is the last arm. -/
theorem lastClause_stays (hName : (name.isMissing || name.isIdent) = true)
    (hCatchAll : isTyped type = false) (hBody : Grows (lowerStatements body) body.bodies) :
    Stays true (lowerCatches true (.catchClause token name type body :: rest))
      (Stmt.clausesBodies (.catchClause token name type body :: rest)) := by
  obtain ⟨grow, hInside⟩ := hBody
  obtain ⟨grow', hClause⟩ := exists_clause_eq name type grow
  have hArm := Walk.settles_lastClause token rest hName hCatchAll hInside
  rw [hClause] at hArm
  rw [Stmt.clausesBodies_cons, hCatchAll, if_neg Bool.false_ne_true, List.append_nil]
  exact hArm

/-- A catch-all that comes first stands in the block of the test for an error. -/
theorem onlyClause_grows (hName : (name.isMissing || name.isIdent) = true)
    (hCatchAll : isTyped type = false) (hBody : Grows (lowerStatements body) body.bodies) :
    Grows (lowerCatches false (.catchClause token name type body :: rest))
      (Stmt.clausesBodies (.catchClause token name type body :: rest)) := by
  obtain ⟨grow, hInside⟩ := hBody
  obtain ⟨grow', hClause⟩ := exists_clause_eq name type grow
  have hAll := Walk.declares_onlyClause token rest hName hCatchAll hInside
  rw [hClause] at hAll
  rw [Stmt.clausesBodies_cons, hCatchAll, if_neg Bool.false_ne_true, List.append_nil]
  exact ⟨grow', hAll⟩

end Statements

mutual

/-- In what is written for a statement of the right shape, the innermost scope has the names of the
innermost block at every line. The induction is on the tree, and every construct closes the
blocks that it opens. -/
theorem lower_grows : (s : Stmt) → s.Shaped → Grows (lower s) s.bodies
  | .imports _ paths, _ => Stays.grows (Walk.settles_importLines paths)
  | .func _ _ _ _ _ body, hShaped =>
      (func_stays hShaped (lowerStatements_grows body (missing_or_block hShaped.2.2.1)
        hShaped.2.2.2)).grows
  | .ret _ _, hShaped => Stays.grows (Walk.settles_lowerReturn hShaped)
  | .block _ statements, hShaped => by
      obtain ⟨_, hInside⟩ := lowerAll_grows statements hShaped
      exact Stays.grows ((hInside.arm rfl rfl Walk.settles_close).congr rfl (List.append_nil _))
  | .ifElse _ condition consequence alternative, hShaped => by
      obtain ⟨hCondition, hBlock, hConsequence, hPlace, hAlternative⟩ := hShaped
      obtain ⟨_, hInside⟩ :=
        lowerStatements_grows consequence (missing_or_block hBlock) hConsequence
      rw [Stmt.bodies_ifElse, lower_ifElse hCondition hBlock]
      exact Stays.grows (Walk.settles_conditional false hInside
        (lowerElse_stays alternative hPlace hAlternative))
  | .loop _ init condition update body, hShaped => by
      obtain ⟨hInit, hCondition, hUpdate, hBlock, hBody⟩ := hShaped
      obtain ⟨_, hInside⟩ := lowerStatements_grows body (missing_or_block hBlock) hBody
      refine Stays.grows (Walk.settles_loop hInit hCondition hUpdate hBlock (opens_loop _)
        (fun level hLevel => ?_) hInside)
      cases hLevel
      rfl
  | .branch _, hShaped => Stays.grows (Walk.settles_branch hShaped)
  | .tryCatch _ body catches cleanup, hShaped => by
      obtain ⟨hBlock, hBody, hCatches, hPlace, hCleanup⟩ := hShaped
      exact tryCatch_grows (lowerStatements_grows body (missing_or_block hBlock) hBody)
        (lowerCatches_grows catches hCatches) (lowerStatements_grows cleanup hPlace hCleanup)
  | .throw _ _, hShaped => Stays.grows (Walk.settles_lowerThrow hShaped)
  | .decl _ _ _ _ _, hShaped | .define _ _ _, hShaped | .assign _ _ _ _, hShaped
  | .incr _ _ _, hShaped | .expr _ _, hShaped => ⟨_, Walk.declares_simple hShaped⟩
  | .package _ _, _ | .comment _ _ _, _ | .missing, _ | .catchClause _ _ _ _, _ | .bare _, _
  | .program _ _, _ => Stays.grows (Walk.settles_line rfl)

/-- Statements in a row add their blocks in a row. -/
theorem lowerAll_grows : (statements : List Stmt) → Stmt.AllShaped statements →
    Grows (lowerAll statements) (Stmt.allBodies statements)
  | [], _ => Stays.grows Walk.settles_pure
  | s :: rest, hShaped => by
      rw [Stmt.allBodies_cons]
      exact (lower_grows s hShaped.1).seq (lowerAll_grows rest hShaped.2)

theorem lowerStatements_grows (s : Stmt) (hPlace : (s.isMissing || s.isBlock) = true)
    (hShaped : s.Shaped) : Grows (lowerStatements s) s.bodies := by
  cases s with
  | missing => exact Stays.grows Walk.settles_pure
  | block _ statements => exact lowerAll_grows statements hShaped
  | _ => cases hPlace

theorem lowerElse_stays (s : Stmt) (hPlace : (s.isMissing || s.isBlock || s.isConditional) = true)
    (hShaped : s.Shaped) : Stays true (lowerElse s) s.bodies := by
  cases s with
  | missing => exact Walk.settles_close
  | block _ statements =>
      obtain ⟨_, hInside⟩ := lowerAll_grows statements hShaped
      exact (hInside.arm rfl rfl Walk.settles_close).congr rfl (List.append_nil _)
  | ifElse _ condition consequence alternative =>
      obtain ⟨hCondition, hBlock, hConsequence, hNext, hAlternative⟩ := hShaped
      obtain ⟨_, hInside⟩ :=
        lowerStatements_grows consequence (missing_or_block hBlock) hConsequence
      rw [Stmt.bodies_ifElse, lowerElse_ifElse hCondition hBlock]
      exact Walk.settles_conditional true hInside (lowerElse_stays alternative hNext hAlternative)
  | _ => cases hPlace

/-- Clauses in one chain leave the open block. -/
theorem lowerCatches_stays : (catches : List Stmt) → Stmt.AllClausesShaped catches →
    Stays true (lowerCatches true catches) (Stmt.clausesBodies catches)
  | [], _ => Walk.settles_close
  | s :: rest, hClauses => by
      cases s with
      | catchClause _ name type body =>
          obtain ⟨hName, hBlock, hBody, hRest⟩ := hClauses
          have hInside := lowerStatements_grows body (missing_or_block hBlock) hBody
          cases hTyped : isTyped type with
          | true =>
              exact typedClause_stays true hName hTyped hInside (lowerCatches_stays rest hRest)
          | false => exact lastClause_stays hName hTyped hInside
      | _ => exact hClauses.elim

theorem lowerCatches_grows : (catches : List Stmt) → Stmt.AllClausesShaped catches →
    Grows (lowerCatches false catches) (Stmt.clausesBodies catches)
  | [], _ => Stays.grows Walk.settles_pure
  | s :: rest, hClauses => by
      cases s with
      | catchClause _ name type body =>
          obtain ⟨hName, hBlock, hBody, hRest⟩ := hClauses
          have hInside := lowerStatements_grows body (missing_or_block hBlock) hBody
          cases hTyped : isTyped type with
          | true =>
              exact (typedClause_stays false hName hTyped hInside
                (lowerCatches_stays rest hRest)).grows
          | false => exact onlyClause_grows hName hTyped hInside
      | _ => exact hClauses.elim

end

/-! ### Programs -/

theorem lowerTop_grows (statements : List Stmt) (hShaped : Stmt.AllShaped statements)
    (previous : Option Stmt) :
    Grows (lowerTop previous statements) (Stmt.allBodies statements) := by
  induction statements generalizing previous with
  | nil => exact Stays.grows Walk.settles_pure
  | cons s rest ih =>
      have hRest := (lower_grows s hShaped.1).seq (ih hShaped.2 (some s))
      have hBlank : Stays false (emit .blank) [] := Walk.settles_line rfl
      rw [lowerTop, Stmt.allBodies_cons]
      split
      · exact hBlank.grows.seq hRest
      · exact hRest

/-- The imports that are added have no bodies. -/
theorem allBodies_withErrorImports (program : Program) :
    Stmt.allBodies (withErrorImports program) = Stmt.allBodies program.statements := by
  have hOther (statements : List Stmt) : Stmt.allBodies
      (statements.filter fun s => !s.bodies.isEmpty) = Stmt.allBodies statements := by
    induction statements with
    | nil => rfl
    | cons s rest ih =>
        rw [Stmt.allBodies_cons, ← ih, List.filter_cons]
        cases hBodies : s.bodies with
        | nil => rfl
        | cons body more => exact (Stmt.allBodies_cons _ _).trans (by rw [hBodies])
  rw [← hOther, filter_withErrorImports fun _ _ => rfl, hOther]

/-- A program adds the blocks of its statements. -/
theorem lowerProgram_grows {program : Program} (hShaped : Stmt.AllShaped program.statements) :
    Grows (lowerProgram program) (Stmt.allBodies program.statements) := by
  have hAll : Stmt.AllShaped (withErrorImports program) := by
    rw [Stmt.allShaped_iff] at hShaped ⊢
    intro s hMem
    rcases mem_withErrorImports program s hMem with hMem | ⟨token, paths, rfl⟩
    · exact hShaped s hMem
    · trivial
  have hRecord : Stays false (record (.injectedImports (missingPackages program))) [] :=
    Walk.settles_record _
  have hTop := lowerTop_grows _ hAll none
  rw [allBodies_withErrorImports] at hTop
  rw [lowerProgram]
  split
  · exact hRecord.grows.seq hTop
  · exact hTop

end Lower

/-- Whatever is read from a source is lowered to lines that close exactly the blocks that they open.
The bodies of functions and closures among them are those of the functions and tries of the
program, in their order. And a try is written as an assignment if the lines in front of it that
stand in the same block declare its error, where the block of a function has its parameters to
begin with, and as a short definition if none of them does. -/
theorem try_reuses_iff (source : String) (program : Program)
    (hResult : (parse source).result = .ok program) :
    ∃ lines, program.lower.result = .ok lines ∧
      let codes := lines.map Go.Line.code
      let bodies := Stmt.allBodies program.statements
      (∀ before reuse after, codes = before ++ .tryOpen reuse :: after →
        (Go.Code.tryOpen reuse).text =
          if "err" ∈ (Blocks.passAll ⟨[[]], bodies⟩ before).inner then "err = func() error \x7b"
          else "err := func() error \x7b")
      ∧ List.Forall₂ Stmt.OpenedBy bodies (codes.filter Go.Code.opensBody)
      ∧ Go.openAfter 0 codes = some 0 := by
  obtain ⟨grow, hGrows⟩ := Lower.lowerProgram_grows (Parse.allShaped_readFrom hResult)
  obtain ⟨scope, codes, ⟨s, hRun, -, hCodes⟩, hWalk⟩ := hGrows Lower.State.init [] [] rfl
  obtain ⟨_, ⟨⟩, hAll⟩ := (hWalk [] rfl).1 [] []
  have hWritten : s.lines.reverse.map Go.Line.code = codes := by
    rw [List.map_reverse]
    exact hCodes
  change Blocks.Lead ⟨[[]], _ ++ []⟩ codes _ at hAll
  rw [List.append_nil] at hAll
  refine ⟨s.lines.reverse, by rw [Program.lower, hRun], ?_⟩
  rw [hWritten]
  refine ⟨fun before reuse after hSplit => ?_, ?_, (hAll.openAfter (Nat.le_refl 1)).1⟩
  · rw [hSplit] at hAll
    have hReuse := hAll.allows.reuse reuse rfl
    cases reuse with
    | true => rw [if_pos (hReuse.mp rfl)]; rfl
    | false => rw [if_neg fun h => Bool.false_ne_true (hReuse.mpr h)]; rfl
  · obtain ⟨opened, hDue, hOpened⟩ := hAll.bodies
    have hBodies : Stmt.allBodies program.statements = opened := hDue.trans (List.append_nil opened)
    rw [hBodies]
    exact hOpened

/-- Tries behind declarations of their error in the same block, around it and in headers. -/
def reusingSource : String :=
  "func f(err T) \x7b try \x7b var err T; try \x7b g \x7d \x7d "
    ++ "catch (err *E) \x7b try \x7b g \x7d \x7d catch (err) \x7b try \x7b g \x7d \x7d "
    ++ "for err := 0;; \x7b try \x7b g \x7d finally \x7b try \x7b g \x7d \x7d \x7d \x7d"

/-- Behind a parameter or a declaration in its own block the error is assigned, and elsewhere it is
defined. -/
theorem try_reuses_iff_reusingSource :
    ∃ program, (parse reusingSource).result = .ok program ∧
      ∃ lines, program.lower.result = .ok lines ∧
        let codes := lines.map Go.Line.code
        (∀ before reuse after, codes = before ++ .tryOpen reuse :: after →
          (Go.Code.tryOpen reuse).text =
            if "err" ∈ (Blocks.passAll ⟨[[]], Stmt.allBodies program.statements⟩ before).inner
            then "err = func() error \x7b" else "err := func() error \x7b")
        ∧ codes.filter Go.Code.opensBody = [.funcOpen "f(err T) error", .tryOpen true,
          .tryOpen true, .tryOpen false, .tryOpen true, .tryOpen false, .tryOpen true] := by
  obtain ⟨program, hRead, hWritten⟩ := Parse.exists_ok_of_test (parse reusingSource).result
    (fun program => program.lower.result.toOption.any fun lines =>
      (lines.map Go.Line.code).filter Go.Code.opensBody ==
        [.funcOpen "f(err T) error", .tryOpen true, .tryOpen true, .tryOpen false,
          .tryOpen true, .tryOpen false, .tryOpen true]) (by decide +kernel)
  obtain ⟨lines, hLines, hReuse, -, -⟩ := try_reuses_iff reusingSource program hRead
  rw [hLines, Except.toOption, Option.any_some, beq_iff_eq] at hWritten
  exact ⟨program, hRead, lines, hLines, hReuse, hWritten⟩

end TryGo
