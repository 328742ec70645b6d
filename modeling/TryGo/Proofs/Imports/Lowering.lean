import TryGo.Proofs.Imports.Throws
import TryGo.Proofs.Step.Account

/-! The imports at top level and the throws among the lines of a program. A run is described by
what it adds of both. Deeper than top level nothing counts as an import; only the cleanup of a
try stays at the level of its try. -/
namespace TryGo

namespace Go

/-- The path that a line imports at top level. In an import group paths stand one level deeper
than the group. -/
def Line.topImport? (line : Line) : Option String :=
  match line.code with
  | .importPath path => if line.depth = 0 then some path else none
  | .groupedPath path => if line.depth = 1 then some path else none
  | _ => none

def Code.isThrow : Code → Bool
  | .throwReturn _ _ => true
  | _ => false

/-- The paths that some lines import at top level. -/
def topImports (lines : List Line) : List String := lines.filterMap Line.topImport?

def anyThrow (lines : List Line) : Bool := lines.any fun line => line.code.isThrow

/-- What lines in a row import is what each part imports. -/
theorem topImports_append (lines more : List Line) :
    topImports (lines ++ more) = topImports lines ++ topImports more := List.filterMap_append

theorem anyThrow_append (lines more : List Line) :
    anyThrow (lines ++ more) = (anyThrow lines || anyThrow more) := List.any_append

end Go

namespace Lower

/-- The paths that lines import at top level, and whether there is a throw among them, where lines
stand at top level or not. -/
def needAccount (top : Bool) : Account (List String × Bool) where
  Covers depth _ := (depth == 0) = top
  Amounts _ lines need := Go.topImports lines = need.1 ∧ Go.anyThrow lines = need.2
  none := ([], false)
  both need more := (need.1 ++ more.1, need.2 || more.2)
  none_both _ := rfl
  both_none need := by rw [List.append_nil, Bool.or_false]
  amounts_nil _ := ⟨rfl, rfl⟩
  amounts_append hFirst hMore := by
    rw [Go.topImports_append, Go.anyThrow_append, hFirst.1, hFirst.2, hMore.1, hMore.2]
    exact ⟨rfl, rfl⟩

/-- Whether a step that ends in a value adds lines that import some paths at top level. There is a
throw among them exactly if `throws` says so. -/
abbrev Needs {α : Type} (top : Bool) (step : LowerM α) (paths : List String) (throws : Bool) :
    Prop :=
  (needAccount top).Adds step (paths, throws)

/-- The paths that are imported at top level by what stands there. -/
def atTop (top : Bool) (paths : List String) : List String := if top then paths else []

@[simp] theorem atTop_nil (top : Bool) : atTop top [] = [] := by cases top <;> rfl

@[simp] theorem atTop_false (paths : List String) : atTop false paths = [] := rfl

theorem atTop_append (top : Bool) (paths more : List String) :
    atTop top (paths ++ more) = atTop top paths ++ atTop top more := by cases top <;> rfl

section Steps

variable {top : Bool} {body : LowerM Unit} {paths : List String} {throws : Bool}

/-- A line that imports nothing. -/
theorem needs_line {code : Go.Code} (hOther : ∀ depth, Go.Line.topImport? ⟨depth, code⟩ = none) :
    Needs top (emit code) [] code.isThrow := by
  refine .emit fun depth _ _ => ⟨?_, Bool.or_false code.isThrow⟩
  rw [Go.topImports, List.filterMap_cons_none (hOther depth)]
  rfl

/-- A line that neither imports nor throws. -/
theorem needs_plain {code : Go.Code} (hOther : ∀ depth, Go.Line.topImport? ⟨depth, code⟩ = none)
    (hThrow : code.isThrow = false) : Needs top (emit code) [] false := hThrow ▸ needs_line hOther

/-- What stands one level deeper does not stand at top level. -/
theorem Needs.inBlock (hBody : Needs false body paths throws) (names : List String) :
    Needs top (inBlock names body) paths throws :=
  Account.Adds.inBlock hBody names (fun _ => rfl) id

/-- What is written deeper is not at the top, so it imports nothing there. -/
theorem Needs.deeper (hBody : Needs false body paths throws) :
    Needs top (deeper body) paths throws := Account.Adds.deeper hBody (fun _ => rfl) id

/-- The frame does not matter for what is imported. -/
theorem Needs.inFrame (hBody : Needs top body paths throws) (frame : Frame) :
    Needs top (inFrame frame body) paths throws := Account.Adds.inFrame hBody frame id id

/-- What imports nothing imports nothing at top level. -/
theorem Needs.none {α : Type} {step : LowerM α} (hStep : Needs top step [] throws) :
    Needs top step (atTop top []) throws := by
  rwa [atTop_nil]

/-- The line of a simple statement neither imports nor throws. -/
theorem needs_simple (s : Stmt) : Needs top (do emit (← simple s)) [] false :=
  .simple (needs_plain (fun _ => by cases s <;> rfl) (by cases s <;> rfl))

/-- What binds a caught error imports nothing and throws nothing. -/
theorem needs_bindCaught (name : Expr) (type : Option String) :
    Needs top (bindCaught name type) [] false := by
  refine .behind fun value => ?_
  cases value with
  | none => exact .value ()
  | some value =>
      refine .behind fun binding => .ite (fun _ => ?_) fun _ => needs_plain (fun _ => rfl) rfl
      exact .before (needs_plain (fun _ => rfl) rfl) fun _ =>
        .behind fun _ => needs_plain (fun _ => rfl) rfl

/-- A return is no throw. -/
theorem needs_lowerReturn (values : List Expr) : Needs top (lowerReturn values) [] false :=
  .lowerReturn fun _ _ _ => needs_plain (fun _ => rfl) rfl

/-- A throw is written as a return that uses the packages. -/
theorem needs_lowerThrow (value : Expr) : Needs top (lowerThrow value) [] true :=
  .lowerThrow fun _ _ _ => needs_line fun _ => rfl

/-! ### Imports -/

/-- The paths of a group are imported at the top if the group stands there. -/
theorem topImports_groupedPaths (depth : Nat) (paths : List String) :
    Go.topImports (paths.map fun path => ⟨depth + 1, .groupedPath path⟩) =
      atTop (depth == 0) paths := by
  induction paths with
  | nil => rw [atTop_nil]; rfl
  | cons path paths ih =>
      rw [List.map_cons, Go.topImports, List.filterMap_cons]
      cases depth with
      | zero => exact congrArg (path :: ·) ih
      | succ depth => exact ih

/-- The paths of a group stand one level deeper than the group. -/
theorem topImports_importCode (depth : Nat) (paths : List String) :
    Go.topImports (importCode depth paths) = atTop (depth == 0) paths := by
  have hGroup : Go.topImports (⟨depth, .importOpen⟩ :: (paths.map
      (fun path => ⟨depth + 1, .groupedPath path⟩) ++ [⟨depth, .importClose⟩])) =
        atTop (depth == 0) paths := by
    rw [Go.topImports, List.filterMap_cons_none rfl, List.filterMap_append]
    exact (List.append_nil _).trans (topImports_groupedPaths depth paths)
  match paths with
  | [] | _ :: _ :: _ => exact hGroup
  | [path] => cases depth <;> rfl

/-- No line of an import throws. -/
theorem anyThrow_importCode (depth : Nat) (paths : List String) :
    Go.anyThrow (importCode depth paths) = false := by
  match paths with
  | [] | [_] => rfl
  | _ :: _ :: _ => simp [importCode, Go.anyThrow, Go.Code.isThrow]

theorem needs_importLines (paths : List String) :
    Needs top (importLines paths) (atTop top paths) false := by
  refine .importLines fun depth _ hDepth => ⟨?_, anyThrow_importCode depth paths⟩
  rw [topImports_importCode, show (depth == 0) = top from hDepth]

end Steps

/-! ### Statements -/

section Statements

variable {top : Bool}

/-- A function imports nothing at the top, and throws what its body does. -/
theorem needs_func {token : Token} {name : Expr} {params : List Expr}
    {types : List (Option String)} {result : Option String} {body : Stmt}
    (hBody : ∀ names, Needs top (lowerBlock names body) [] body.throws) :
    Needs top (lower (.func token name params types result body)) [] body.throws := by
  have hInside (closes : Bool) : Needs top
      (do
        lowerBlock (← namesOf params) body
        if closes then deeper (emit (.ret ["nil"]))) [] body.throws :=
    .behind fun names => (hBody names).after
      (.ite (fun _ => Needs.deeper (needs_plain (fun _ => rfl) rfl)) fun _ => .value ())
  refine (Account.Adds.func (needs_plain (fun _ => rfl) rfl) ((hInside _).inFrame _)
    (needs_plain (fun _ => rfl) rfl)).congr ?_
  exact congrArg (Prod.mk []) (Bool.or_false body.throws)

/-- The cleanup of a try is written at the level of the try, and the rest of it deeper. -/
theorem needs_tryCatch {token : Token} {body cleanup : Stmt} {catches : List Stmt}
    (hBody : Needs false (lowerStatements body) [] body.throws)
    (hCatches : Needs false (lowerCatches false catches) [] (Stmt.clausesThrow catches))
    (hCleanup : Needs top (lowerStatements cleanup) (atTop top cleanup.heldImports)
      cleanup.throws) :
    Needs top (lower (.tryCatch token body catches cleanup)) (atTop top cleanup.heldImports)
      (body.throws || (Stmt.clausesThrow catches || cleanup.throws)) := by
  have hClosure : Needs false (do lowerStatements body; emit (.ret ["nil"])) [] body.throws :=
    hBody.after (needs_plain (fun _ => rfl) rfl)
  have hChain : Needs top
      (do
        emit .errCheck
        inBlock [] (lowerCatches false catches)
        emit .close) [] (Stmt.clausesThrow catches) :=
    .before (needs_plain (fun _ => rfl) rfl) fun _ =>
      (hCatches.inBlock []).after (needs_plain (fun _ => rfl) rfl)
  have hDiscard (hNone : catches = []) :
      Needs top (emit .discardErr) [] (Stmt.clausesThrow catches) :=
    hNone ▸ needs_plain (fun _ => rfl) rfl
  exact .tryCatch (fun _ => needs_plain (fun _ => rfl) rfl) ((hClosure.inBlock []).inFrame _)
    (needs_plain (fun _ => rfl) rfl) hDiscard (fun _ => hChain) hCleanup

/-- Clauses are lowered up to the first catch-all, and no throw is written for the others. -/
theorem needs_catchClause {token : Token} {name : Expr} {type : Option String} {body : Stmt}
    {rest : List Stmt} {chained : Bool}
    (hBody : Needs false (lowerStatements body) [] body.throws)
    (hRest : Needs false (lowerCatches true rest) [] (Stmt.clausesThrow rest)) :
    Needs false (lowerCatches chained (.catchClause token name type body :: rest)) []
      (Stmt.clausesThrow (.catchClause token name type body :: rest)) := by
  have hArm : Needs false (do bindCaught name type; lowerStatements body) [] body.throws :=
    .before (needs_bindCaught name type) fun _ => hBody
  rw [Stmt.clausesThrow_cons]
  cases hTyped : isTyped type with
  | true =>
      exact .typedClause hTyped (fun _ => needs_plain (fun _ => rfl) rfl) (hArm.inBlock []) hRest
  | false =>
      cases chained with
      | true =>
          exact .lastClause hTyped (needs_plain (fun _ => rfl) rfl) (hArm.inBlock [])
            (needs_plain (fun _ => rfl) rfl)
      | false => exact .onlyClause hTyped (hArm.congr (by rw [Bool.false_and, Bool.or_false]))

/-- A conditional throws if one of its arms does. -/
theorem needs_conditional {condition : Expr} {consequence alternative : Stmt} (chained : Bool)
    (hConsequence : Needs top (lowerBlock [] consequence) [] consequence.throws)
    (hAlternative : Needs top (lowerElse alternative) [] alternative.throws) :
    Needs top
      (do
        checkGo [condition]
        emit (.ifOpen chained condition.go)
        lowerBlock [] consequence
        lowerElse alternative)
      [] (consequence.throws || alternative.throws) :=
  .conditional (needs_plain (fun _ => rfl) rfl) hConsequence hAlternative

end Statements

mutual

/-- At top level a statement imports its paths there, and a throw is written for it exactly if one
of the statements that are written is a throw. -/
theorem lower_needs (top : Bool) : (s : Stmt) → s.Complete →
    Needs top (lower s) (atTop top s.topImports) s.throws
  | .missing, hComplete | .bare _, hComplete | .program _ _, hComplete
  | .catchClause _ _ _ _, hComplete =>
      hComplete.elim
  | .package _ _, _ | .comment _ _ _, _ => (needs_plain (fun _ => rfl) rfl).none
  | .imports _ paths, _ => needs_importLines paths
  | .func _ _ _ _ _ body, hComplete => by
      rw [Stmt.throws_func]
      exact (needs_func fun names =>
        lowerBlock_needs top names body hComplete.2.2.2.1 hComplete.2.2.2.2).none
  | .ret _ values, _ => (needs_lowerReturn values).none
  | .block token statements, hComplete => by
      rw [Stmt.throws_block]
      refine Needs.none (.before (needs_plain (fun _ => rfl) rfl) fun _ => ?_)
      exact ((lowerAll_needs false statements hComplete).inBlock []).after
        (needs_plain (fun _ => rfl) rfl)
  | .ifElse _ _ consequence alternative, hComplete => by
      obtain ⟨-, hPlace, hConsequence, hAlternative⟩ := hComplete
      rw [Stmt.throws_ifElse]
      exact (needs_conditional false (lowerBlock_needs top [] consequence hPlace hConsequence)
        (lowerElse_needs top alternative hAlternative)).none
  | .loop _ init condition update body, hComplete => by
      rw [Stmt.throws_loop]
      have hBody := lowerBlock_needs top [] body hComplete.2.2.2.1 hComplete.2.2.2.2
      refine Needs.none ((Account.Adds.loop (fun _ => needs_plain (fun _ => rfl) rfl) hBody
        (needs_plain (fun _ => rfl) rfl)).congr ?_)
      exact congrArg (Prod.mk []) (Bool.or_false body.throws)
  | .branch token, _ => by
      refine Needs.none ?_
      rw [lower]
      split
      · exact needs_plain (fun _ => rfl) rfl
      · exact .fault _
  | .tryCatch _ body catches cleanup, hComplete => by
      obtain ⟨hPlace, hBody, hCatches, hCleanup⟩ := hComplete
      rw [Stmt.throws_tryCatch]
      exact needs_tryCatch (lowerStatements_needs false body (.inr ⟨hPlace, hBody⟩))
        (lowerCatches_needs false catches hCatches) (lowerStatements_needs top cleanup hCleanup)
  | .throw _ value, _ => (needs_lowerThrow value).none
  | .decl _ _ _ _ _, _ | .define _ _ _, _ | .assign _ _ _ _, _ | .incr _ _ _, _
  | .expr _ _, _ => (needs_simple _).none

theorem lowerAll_needs (top : Bool) : (statements : List Stmt) → Stmt.AllComplete statements →
    Needs top (lowerAll statements) (atTop top (Stmt.allTopImports statements))
      (statements.any Stmt.throws)
  | [], _ => Needs.none (.value ())
  | s :: rest, hComplete => by
      rw [Stmt.allTopImports, atTop_append, List.any_cons]
      exact (lower_needs top s hComplete.1).seq (lowerAll_needs top rest hComplete.2)

theorem lowerBlock_needs (top : Bool) (names : List String) (s : Stmt)
    (hPlace : s.isBlock = true) (hComplete : s.Complete) :
    Needs top (lowerBlock names s) [] s.throws := by
  cases s with
  | block _ statements =>
      rw [Stmt.throws_block]
      exact (lowerAll_needs false statements hComplete).inBlock names
  | _ => cases hPlace

theorem lowerStatements_needs (top : Bool) (s : Stmt)
    (hPart : s.isMissing = true ∨ s.isBlock = true ∧ s.Complete) :
    Needs top (lowerStatements s) (atTop top s.heldImports) s.throws := by
  cases s with
  | missing => exact Needs.none (.value ())
  | block _ statements =>
      rw [Stmt.throws_block]
      exact lowerAll_needs top statements (hPart.resolve_left Bool.false_ne_true).2
  | _ => simp [Stmt.isMissing, Stmt.isBlock] at hPart

theorem lowerElse_needs (top : Bool) (s : Stmt) (hPart : s.isMissing = true
      ∨ (s.isBlock || s.isConditional) = true ∧ s.Complete) :
    Needs top (lowerElse s) [] s.throws := by
  cases s with
  | missing => exact needs_plain (fun _ => rfl) rfl
  | block _ statements =>
      rw [Stmt.throws_block]
      have hComplete := (hPart.resolve_left Bool.false_ne_true).2
      have hInside := lowerAll_needs false statements hComplete
      exact Account.Adds.before (needs_plain (fun _ => rfl) rfl) fun _ =>
        (hInside.inBlock []).after (needs_plain (fun _ => rfl) rfl)
  | ifElse _ _ consequence alternative =>
      obtain ⟨-, hPlace, hConsequence, hAlternative⟩ := (hPart.resolve_left Bool.false_ne_true).2
      rw [Stmt.throws_ifElse]
      exact needs_conditional true (lowerBlock_needs top [] consequence hPlace hConsequence)
        (lowerElse_needs top alternative hAlternative)
  | _ => simp [Stmt.isMissing, Stmt.isBlock, Stmt.isConditional] at hPart

theorem lowerCatches_needs (chained : Bool) : (catches : List Stmt) → Stmt.AllClauses catches →
    Needs false (lowerCatches chained catches) [] (Stmt.clausesThrow catches)
  | [], _ => .ite (fun _ => needs_plain (fun _ => rfl) rfl) fun _ => .value ()
  | s :: rest, hClauses => by
      cases s with
      | catchClause token name type body =>
          obtain ⟨-, hPlace, hBody, hRest⟩ := hClauses
          exact needs_catchClause (lowerStatements_needs false body (.inr ⟨hPlace, hBody⟩))
            (lowerCatches_needs true rest hRest)
      | _ => exact hClauses.elim

end

/-! ### Programs -/

/-- What no import is stands in the statements with the added imports where it stood before. -/
theorem any_withErrorImports {p : Stmt → Bool}
    (hImports : ∀ token paths, p (.imports token paths) = false) (program : Program) :
    (withErrorImports program).any p = program.statements.any p := by
  have hFilter := congrArg (List.any · p) (filter_withErrorImports hImports program)
  simpa only [List.any_filter, Bool.and_self] using hFilter

/-- Statements are complete if each of them is. -/
theorem allComplete_iff {statements : List Stmt} :
    Stmt.AllComplete statements ↔ ∀ s ∈ statements, s.Complete := by
  induction statements with
  | nil => simp [Stmt.AllComplete]
  | cons s rest ih => rw [Stmt.AllComplete, ih, List.forall_mem_cons]

/-- The blank lines of a program import nothing. -/
theorem lowerTop_needs (statements : List Stmt) (hComplete : Stmt.AllComplete statements)
    (previous : Option Stmt) :
    Needs true (lowerTop previous statements) (Stmt.allTopImports statements)
      (statements.any Stmt.throws) := by
  induction statements generalizing previous with
  | nil => exact .value ()
  | cons s rest ih =>
      have hRest : Needs true (do lower s; lowerTop (some s) rest)
          (Stmt.allTopImports (s :: rest)) ((s :: rest).any Stmt.throws) :=
        (lower_needs true s hComplete.1).seq (ih hComplete.2 (some s))
      exact .ite (fun _ => .before (needs_plain (fun _ => rfl) rfl) fun _ => hRest) fun _ => hRest

/-- A program imports at top level what it imports with the packages that it lacks, and it writes
the throws that it has without them. -/
theorem lowerProgram_needs {program : Program} (hComplete : program.Complete) :
    Needs true (lowerProgram program) (Stmt.allTopImports (withErrorImports program))
      (program.statements.any Stmt.throws) := by
  have hAll : Stmt.AllComplete (withErrorImports program) := by
    rw [Program.Complete] at hComplete
    rw [allComplete_iff] at hComplete ⊢
    intro s hMem
    rcases mem_withErrorImports program s hMem with hMem | ⟨token, paths, rfl⟩
    · exact hComplete s hMem
    · trivial
  have hTop := lowerTop_needs (withErrorImports program) hAll none
  rw [any_withErrorImports fun _ _ => rfl] at hTop
  exact .ite (fun _ => .behind fun _ => hTop) fun _ => hTop

end Lower

/-- What is read without a report has no holes. -/
theorem Program.complete_of_parse {source : String} {program : Program}
    (hResult : (parse source).result = .ok program) (hReports : (parse source).reports = []) :
    program.Complete := by
  obtain ⟨items, -, hFits, hTrees⟩ := exists_items_of_parse hResult hReports
  rw [Program.Complete, ← hTrees]
  exact items.allComplete_trees .eof hFits

/-- Whether a program has throws and all of them are dropped. -/
def Program.DropsAllThrows (program : Program) : Prop :=
  (Stmt.allDropped program.statements).any Stmt.isThrow = true
    ∧ (Stmt.allEmitted program.statements).any Stmt.isThrow = false

/-- The search that decides about the imports also finds the throws that are dropped. -/
theorem Program.containsThrow_eq {program : Program} (hComplete : program.Complete) :
    program.containsThrow = ((Stmt.allEmitted program.statements).any Stmt.isThrow
      || (Stmt.allDropped program.statements).any Stmt.isThrow) := by
  rw [Stmt.any_isThrow_allEmitted, Stmt.any_isThrow_allDropped]
  exact Stmt.anyContainsThrow_eq program.statements hComplete

open Lower in
/-- The error packages are imported wherever a lowered throw refers to them. What a program lacks
of them is added to its imports at top level, all of it and in one place, or nothing is
added. It is added exactly if a throw is written, unless the program has throws only in
catch clauses behind a catch-all: no throw is written for these, and the packages are added. -/
theorem topImports_errorPackages (source : String) (filename : Option String) (program : Program)
    (hResult : (parse source).result = .ok program) (hReports : (parse source).reports = []) :
    ∃ lines, program.lower.result = .ok lines ∧ goSource source filename = .ok (Go.sourceText lines)
      ∧ (Go.anyThrow lines = true → ∀ path ∈ errorPackages, path ∈ Go.topImports lines)
      ∧ (Go.topImports lines = Stmt.allTopImports program.statements
        ∨ AddsPaths (absentPackages program.statements) (Stmt.allTopImports program.statements)
          (Go.topImports lines))
      ∧ (absentPackages program.statements ≠ [] →
        ((AddsPaths (absentPackages program.statements) (Stmt.allTopImports program.statements)
            (Go.topImports lines) ↔ Go.anyThrow lines = true) ↔ ¬program.DropsAllThrows)) := by
  have hComplete := Program.complete_of_parse hResult hReports
  obtain ⟨s, hRun⟩ := exists_lowerProgram (Parse.allShaped_readFrom hResult) State.init
  have hLower : program.lower.result = .ok s.lines.reverse := by rw [Program.lower, hRun]
  obtain ⟨-, -, lines, hLines, hPaths, hThrows⟩ :=
    lowerProgram_needs hComplete State.init () s rfl hRun
  obtain rfl : s.lines.reverse = lines := by
    rw [hLines, List.reverse_append, List.reverse_reverse]
    rfl
  have hGoSource : program.goSource = .ok (Go.sourceText s.lines.reverse) := by
    rw [Program.goSource, hLower]
    rfl
  rw [← Stmt.any_isThrow_allEmitted] at hThrows
  have hContains := Program.containsThrow_eq hComplete
  refine ⟨_, hLower, goSource_of_program hResult hReports hGoSource filename, ?_⟩
  rw [hPaths, hThrows]
  cases hFound : program.containsThrow with
  | false =>
      rw [hContains, Bool.or_eq_false_iff] at hFound
      rw [withErrorImports_of_no_throw (by rw [hContains, hFound.1, hFound.2]; rfl)]
      refine ⟨fun hThrow => absurd (hFound.1.symm.trans hThrow) Bool.false_ne_true, .inl rfl,
        fun hAbsent => ?_⟩
      simp [AddsPaths.not_same hAbsent, Program.DropsAllThrows, hFound.1, hFound.2]
  | true =>
      have hAdds := addsPaths_withErrorImports hFound
      rw [hContains, Bool.or_eq_true] at hFound
      refine ⟨fun _ path hPath => ?_, .inr hAdds, fun _ => ?_⟩
      · exact (mem_absentPackages_or hPath _).elim hAdds.mem_added hAdds.mem_before
      · cases hWritten : (Stmt.allEmitted program.statements).any Stmt.isThrow with
        | true => simp [hAdds, Program.DropsAllThrows, hWritten]
        | false =>
            have hDropped := hFound.resolve_left (by rw [hWritten]; exact Bool.false_ne_true)
            simp [hAdds, Program.DropsAllThrows, hWritten, hDropped]

/-- A source that imports one error package and drops one of its throws. -/
def thrownSource : String :=
  "package p; import \"fmt\"; func f() \x7b try \x7b g() \x7d catch (e *E) \x7b throw e \x7d "
    ++ "catch \x7b \x7d catch \x7b throw 2 \x7d finally \x7b h() \x7d \x7d"

open Lower in
/-- Both packages are imported for a throw in a source that has only one. -/
theorem topImports_errorPackages_thrownSource :
    ∃ program lines, (parse thrownSource).result = .ok program ∧ (parse thrownSource).reports = []
      ∧ program.lower.result = .ok lines
      ∧ absentPackages program.statements = ["errors"] ∧ ¬program.DropsAllThrows
      ∧ (∀ path ∈ errorPackages, path ∈ Go.topImports lines)
      ∧ AddsPaths ["errors"] (Stmt.allTopImports program.statements) (Go.topImports lines) := by
  obtain ⟨program, hResult, hReports, hFacts⟩ := Parse.Reading.exists_ok (parse thrownSource)
    (fun program => absentPackages program.statements == ["errors"]
      && (Stmt.allEmitted program.statements).any Stmt.isThrow
      && program.lower.result.toOption.any Go.anyThrow) (by decide +kernel)
  obtain ⟨lines, hLines, -, hUsed, -, hExactly⟩ :=
    topImports_errorPackages thrownSource none program hResult hReports
  simp only [hLines, Except.toOption, Option.any_some, Bool.and_eq_true, beq_iff_eq] at hFacts
  obtain ⟨⟨hAbsent, hWritten⟩, hThrow⟩ := hFacts
  have hKept : ¬program.DropsAllThrows := fun hDrops =>
    Bool.false_ne_true (hDrops.2.symm.trans hWritten)
  rw [hAbsent] at hExactly
  exact ⟨program, lines, hResult, hReports, hLines, hAbsent, hKept, hUsed hThrow,
    ((hExactly (List.cons_ne_nil _ _)).mpr hKept).mpr hThrow⟩

/-- A source whose only throw stands behind a catch-all. -/
def droppingSource : String :=
  "func f() \x7b try \x7b g() \x7d catch \x7b \x7d catch \x7b throw 1 \x7d \x7d"

open Lower in
/-- The error packages are imported though no throw is written. -/
theorem imports_without_throw :
    ∃ program lines, (parse droppingSource).result = .ok program
      ∧ (parse droppingSource).reports = [] ∧ program.lower.result = .ok lines
      ∧ absentPackages program.statements = ["errors", "fmt"]
      ∧ Stmt.allTopImports program.statements = [] ∧ Go.topImports lines = ["errors", "fmt"]
      ∧ Go.anyThrow lines = false := by
  obtain ⟨program, hResult, hReports, hFacts⟩ := Parse.Reading.exists_ok (parse droppingSource)
    (fun program => absentPackages program.statements == ["errors", "fmt"]
      && Stmt.allTopImports program.statements == []
      && program.lower.result.toOption.any fun lines =>
        Go.topImports lines == ["errors", "fmt"] && !Go.anyThrow lines) (by decide +kernel)
  obtain ⟨hFacts, hLowered⟩ := Bool.and_eq_true_iff.mp hFacts
  obtain ⟨lines, hLines, hLowered⟩ := Parse.exists_ok_of_test program.lower.result _ hLowered
  simp only [Bool.and_eq_true, beq_iff_eq, Bool.not_eq_true'] at hFacts hLowered
  exact ⟨program, lines, hResult, hReports, hLines, hFacts.1, hFacts.2, hLowered.1, hLowered.2⟩

end TryGo
