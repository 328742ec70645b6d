import TryGo.Proofs.Declare.Walk
import TryGo.Proofs.Gate.Lowering

/-! Lowering declares a name again exactly where the tree does, if the names are counted where
lowering puts them. Counted as they are written, a source may be free of redeclarations and its
Go not: the cleanup of a try, the error of a try and the variable of a catch-all meet names
there that they do not meet in the source. -/
namespace TryGo

namespace Lower

/-! ### Statements -/

theorem isSome_ite {α : Type} (condition : Bool) (a : α) :
    (if condition then some a else none).isSome = condition := by
  cases condition <;> rfl

theorem headings_ifElse (token : Token) (condition : Expr) (consequence alternative : Stmt) :
    (Stmt.ifElse token condition consequence alternative).headings =
      consequence.headings ++ alternative.headings := List.filterMap_append

theorem headings_tryCatch (token : Token) (body : Stmt) (catches : List Stmt) (cleanup : Stmt) :
    (Stmt.tryCatch token body catches cleanup).headings =
      body.headings ++ (Stmt.clausesHeadings catches ++ cleanup.headings) := by
  rw [Stmt.headings, Stmt.emitted, List.filterMap_cons]
  exact List.filterMap_append.trans (congrArg _ List.filterMap_append)

theorem headings_catchClause (token : Token) (name : Expr) (type : Option String) (body : Stmt)
    (rest : List Stmt) :
    Stmt.clausesHeadings (.catchClause token name type body :: rest) =
      body.headings ++ if isTyped type then Stmt.clausesHeadings rest else [] := by
  rw [Stmt.clausesHeadings, Stmt.clausesEmitted, List.filterMap_append]
  split <;> rfl

section Statements

variable {token : Token} {name condition : Expr} {type : Option String}
  {body consequence alternative init update cleanup : Stmt} {catches rest : List Stmt}

/-- A function declares its parameters in the block of its body. -/
theorem func_settles {params : List Expr} {types : List (Option String)} {result : Option String}
    (hName : name.isIdent = true) (hParams : ∀ param ∈ params, param.isIdent = true)
    (hBlock : body.isBlock = true)
    (hBody : onceWalk.Declares (lowerStatements body)
      (fun level => body.declareInside .lowered level) body.headings) :
    onceWalk.Settles false (lower (.func token name params types result body))
      (((params.map Expr.text).foldlM Level.declare []).bind fun own =>
        body.declareInside .lowered own).isSome
      (Stmt.func token name params types result body).headings := by
  let heading : Heading :=
    ⟨.funcOpen (signatureText name params types (emittedResult result body)),
      params.map fun param => .decl .var param.text none none⟩
  have hLevel : heading.level = (params.map Expr.text).foldlM Level.declare [] := by
    rw [Heading.level, List.foldlM_map, List.foldlM_map]
    rfl
  have hStart : ∀ level, heading.level = some level → SameNames (params.map Expr.text) level := by
    intro level hOwn other
    rw [hLevel] at hOwn
    rw [Level.mem_of_foldlM_declare hOwn other, or_iff_left List.not_mem_nil]
  rw [← hLevel]
  exact Walk.settles_func hName hParams hBlock (opens_func heading rfl) hStart hBody

/-- A loop declares the names of its clauses in its heading. -/
theorem loop_settles (hInit : init.Shaped) (hCondition : condition.hasLongField = false)
    (hUpdate : update.Shaped) (hBlock : body.isBlock = true)
    (hBody : onceWalk.Declares (lowerStatements body)
      (fun level => body.declareInside .lowered level) body.headings) :
    onceWalk.Settles false (lower (.loop token init condition update body))
      (((init.declareLine []).bind fun own => update.declareLine own).isSome
        && (body.declareInside .lowered []).isSome)
      (Stmt.loop token init condition update body).headings := by
  let heading : Heading :=
    ⟨.forOpen (loopText init condition update), clauseLines init ++ clauseLines update⟩
  have hLevel : heading.level = (init.declareLine []).bind fun own => update.declareLine own := by
    rw [Heading.level, List.foldlM_append, foldlM_clauseLines hInit]
    exact congrArg _ (funext fun own => foldlM_clauseLines hUpdate own)
  have hStart : ∀ level, (heading.level.map fun _ => ([] : List String)) = some level →
      level = [] := by
    intro level hOwn
    obtain ⟨own, -, rfl⟩ := Option.map_eq_some_iff.mp hOwn
    rfl
  have hOnce : ((heading.level.map fun _ => ([] : List String)).bind fun level =>
      body.declareInside .lowered level).isSome =
        (((init.declareLine []).bind fun own => update.declareLine own).isSome
          && (body.declareInside .lowered []).isSome) := by
    rw [hLevel]
    cases (init.declareLine []).bind fun own => update.declareLine own <;> rfl
  exact (Walk.settles_loop hInit hCondition hUpdate hBlock (opens_for heading rfl) hStart
    hBody).congr hOnce rfl

/-- The cleanup of a try declares its names in the block around, where the error is. -/
theorem tryCatch_declares {clauses : List String → Option (List String)}
    (hBody : onceWalk.Declares (lowerStatements body)
      (fun level => body.declareInside .lowered level) body.headings)
    (hClauses : onceWalk.Declares (lowerCatches false catches) clauses
      (Stmt.clausesHeadings catches))
    (hOnce : (clauses []).isSome = Stmt.clausesDeclareOnce .lowered catches)
    (hCleanup : onceWalk.Declares (lowerStatements cleanup)
      (fun level => cleanup.declareInside .lowered level) cleanup.headings) :
    onceWalk.Declares (lower (.tryCatch token body catches cleanup))
      (fun level => (Stmt.tryCatch token body catches cleanup).declareOnce .lowered level)
      (Stmt.tryCatch token body catches cleanup).headings := by
  have hNone : catches = [] →
      Stmt.clausesHeadings catches = [] ∧ (clauses []).isSome = true := by
    intro hEmpty
    rw [hOnce, hEmpty]
    exact ⟨rfl, rfl⟩
  rw [headings_tryCatch]
  refine (Walk.declares_tryCatch once_tries hBody hClauses hNone hCleanup).congr _ fun level => ?_
  rw [Stmt.declareOnce, hOnce]

/-- A clause starts with nothing but the name it binds. -/
theorem once_clause_nil (name : Expr) (type : Option String) (body : Stmt) :
    onceWalk.clause name type (fun level => body.declareInside .lowered level) [] =
      body.declareInside .lowered (Counting.lowered.caught name type) := by
  rw [Walk.clause, once_caught_nil, Option.bind_some]

/-- A clause with a type declares once if its body and the clauses behind it do. -/
theorem typedClause_settles (chained : Bool) (hName : (name.isMissing || name.isIdent) = true)
    (hTyped : isTyped type = true)
    (hBody : onceWalk.Declares (lowerStatements body)
      (fun level => body.declareInside .lowered level) body.headings)
    (hRest : onceWalk.Settles true (lowerCatches true rest)
      (Stmt.clausesDeclareOnce .lowered rest) (Stmt.clausesHeadings rest)) :
    onceWalk.Settles chained (lowerCatches chained (.catchClause token name type body :: rest))
      (Stmt.clausesDeclareOnce .lowered (.catchClause token name type body :: rest))
      (Stmt.clausesHeadings (.catchClause token name type body :: rest)) := by
  refine (Walk.settles_typedClause token chained hName hTyped hBody hRest).congr ?_ ?_
  · rw [once_clause_nil, Stmt.clausesDeclareOnce, hTyped]
    rfl
  · rw [headings_catchClause, if_pos hTyped]

/-- The clauses behind a catch-all are dropped, so they do not count. -/
theorem catchAll_once (hCatchAll : isTyped type = false) :
    Stmt.clausesDeclareOnce .lowered (.catchClause token name type body :: rest) =
        (onceWalk.clause name type (fun level => body.declareInside .lowered level) []).isSome
      ∧ Stmt.clausesHeadings (.catchClause token name type body :: rest) = body.headings := by
  constructor
  · rw [Stmt.clausesDeclareOnce, once_clause_nil, hCatchAll]
    exact Bool.and_true _
  · rw [headings_catchClause, hCatchAll]
    exact List.append_nil _

end Statements

mutual

/-- A statement of the right shape declares in what is written for it what it declares itself, if
names are counted as lowered. The induction is on the tree. What carries it is that scope and
block have the same names: a try looks into the scope, and going over its line looks into the
block. -/
theorem lower_declares : (s : Stmt) → s.Shaped →
    onceWalk.Declares (lower s) (fun level => s.declareOnce .lowered level) s.headings
  | .imports _ paths, _ => (Walk.settles_importLines paths).declares
  | .func _ name params types result body, ⟨hName, hParams, hBlock, hBody⟩ =>
      (func_settles hName hParams hBlock
        (lowerStatements_declares body (missing_or_block hBlock) hBody)).declares
  | .ret _ _, hShaped => (Walk.settles_lowerReturn hShaped).declares
  | .block _ statements, hShaped =>
      (((lowerAll_declares statements hShaped).arm rfl rfl Walk.settles_close).congr
        (Bool.and_true _) (List.append_nil _)).declares
  | .ifElse _ condition consequence alternative, hShaped => by
      obtain ⟨hCondition, hBlock, hConsequence, hPlace, hAlternative⟩ := hShaped
      rw [headings_ifElse, lower_ifElse hCondition hBlock]
      exact (Walk.settles_conditional false
        (lowerStatements_declares consequence (missing_or_block hBlock) hConsequence)
        (lowerElse_settles alternative hPlace hAlternative)).declares
  | .loop _ init condition update body, ⟨hInit, hCondition, hUpdate, hBlock, hBody⟩ =>
      (loop_settles hInit hCondition hUpdate hBlock
        (lowerStatements_declares body (missing_or_block hBlock) hBody)).declares
  | .branch _, hShaped => (Walk.settles_branch hShaped).declares
  | .tryCatch _ body catches cleanup, hShaped => by
      obtain ⟨hBlock, hBody, hCatches, hPlace, hCleanup⟩ := hShaped
      obtain ⟨clauses, hClauses, hOnce⟩ := lowerCatches_declares catches hCatches
      exact tryCatch_declares (lowerStatements_declares body (missing_or_block hBlock) hBody)
        hClauses hOnce (lowerStatements_declares cleanup hPlace hCleanup)
  | .throw _ _, hShaped => (Walk.settles_lowerThrow hShaped).declares
  | .decl _ _ _ _ _, hShaped | .define _ _ _, hShaped | .assign _ _ _ _, hShaped
  | .incr _ _ _, hShaped | .expr _ _, hShaped =>
      (Walk.declares_simple hShaped).congr _ fun level => declareIn_simpleCode hShaped level
  | .package _ _, _ | .comment _ _ _, _ | .missing, _ | .catchClause _ _ _ _, _ | .bare _, _
  | .program _ _, _ => (Walk.settles_line rfl).declares

/-- Statements in a row declare one after the other. -/
theorem lowerAll_declares : (statements : List Stmt) → Stmt.AllShaped statements →
    onceWalk.Declares (lowerAll statements)
      (fun level => Stmt.declareAllOnce .lowered level statements) (Stmt.allHeadings statements)
  | [], _ => Walk.settles_pure.declares
  | s :: rest, hShaped => by
      have hBoth := (lower_declares s hShaped.1).seq (lowerAll_declares rest hShaped.2)
      rw [Stmt.allHeadings, Stmt.allEmitted, List.filterMap_append]
      exact hBoth

theorem lowerStatements_declares (s : Stmt) (hPlace : (s.isMissing || s.isBlock) = true)
    (hShaped : s.Shaped) : onceWalk.Declares (lowerStatements s)
      (fun level => s.declareInside .lowered level) s.headings := by
  cases s with
  | missing => exact Walk.settles_pure.declares
  | block _ statements => exact lowerAll_declares statements hShaped
  | _ => cases hPlace

/-- An alternative is a block of its own. -/
theorem lowerElse_settles (s : Stmt)
    (hPlace : (s.isMissing || s.isBlock || s.isConditional) = true) (hShaped : s.Shaped) :
    onceWalk.Settles true (lowerElse s) (s.declareOnce .lowered []).isSome s.headings := by
  cases s with
  | missing => exact Walk.settles_close
  | block _ statements =>
      exact ((lowerAll_declares statements hShaped).arm rfl rfl Walk.settles_close).congr
        ((Bool.and_true _).trans (isSome_ite _ _).symm) (List.append_nil _)
  | ifElse _ condition consequence alternative =>
      obtain ⟨hCondition, hBlock, hConsequence, hNext, hAlternative⟩ := hShaped
      rw [lowerElse_ifElse hCondition hBlock]
      exact (Walk.settles_conditional true
        (lowerStatements_declares consequence (missing_or_block hBlock) hConsequence)
        (lowerElse_settles alternative hNext hAlternative)).congr (isSome_ite _ _).symm
          (headings_ifElse _ _ _ _).symm
  | _ => cases hPlace

/-- Each clause of a chain is a block of its own. -/
theorem lowerCatches_settles : (catches : List Stmt) → Stmt.AllClausesShaped catches →
    onceWalk.Settles true (lowerCatches true catches) (Stmt.clausesDeclareOnce .lowered catches)
      (Stmt.clausesHeadings catches)
  | [], _ => Walk.settles_close
  | s :: rest, hClauses => by
      cases s with
      | catchClause _ name type body =>
          obtain ⟨hName, hBlock, hBody, hRest⟩ := hClauses
          have hInside := lowerStatements_declares body (missing_or_block hBlock) hBody
          cases hTyped : isTyped type with
          | true =>
              exact typedClause_settles true hName hTyped hInside (lowerCatches_settles rest hRest)
          | false =>
              rw [(catchAll_once hTyped).1, (catchAll_once hTyped).2]
              exact Walk.settles_lastClause _ rest hName hTyped hInside
      | _ => exact hClauses.elim

/-- The clauses stand in the block of the test for an error, which starts empty. A first clause
without a type declares its variable in that block, and other clauses only in their arms. -/
theorem lowerCatches_declares : (catches : List Stmt) → Stmt.AllClausesShaped catches →
    ∃ clauses, onceWalk.Declares (lowerCatches false catches) clauses
        (Stmt.clausesHeadings catches)
      ∧ (clauses []).isSome = Stmt.clausesDeclareOnce .lowered catches
  | [], _ => ⟨_, Walk.settles_pure.declares, rfl⟩
  | s :: rest, hClauses => by
      cases s with
      | catchClause _ name type body =>
          obtain ⟨hName, hBlock, hBody, hRest⟩ := hClauses
          have hInside := lowerStatements_declares body (missing_or_block hBlock) hBody
          cases hTyped : isTyped type with
          | true =>
              exact ⟨_, (typedClause_settles false hName hTyped hInside
                (lowerCatches_settles rest hRest)).declares, isSome_ite _ _⟩
          | false =>
              rw [(catchAll_once hTyped).1, (catchAll_once hTyped).2]
              exact ⟨_, Walk.declares_onlyClause _ rest hName hTyped hInside, rfl⟩
      | _ => exact hClauses.elim

end

end Lower

/-- What is written for a function, wherever it stands, has a block in which a name is declared
again exactly if the function has one when its names are counted as lowered: the error of a
try and the names of its cleanup in the block around the try, and the variable of a catch-all
in the block of its body. The function is always lowered. Without a try in it the names may
be counted as they are written. -/
theorem func_declaresOnce_iff (token : Token) (name : Expr) (params : List Expr)
    (types : List (Option String)) (result : Option String) (body : Stmt)
    (hShaped : (Stmt.func token name params types result body).Shaped) (s : Lower.State) :
    let f := Stmt.func token name params types result body
    (∃ s' codes, Lower.lower f s = .ok () s' ∧ s'.codes = s.codes ++ codes
        ∧ (Go.DeclaresOnce f.headings codes ↔ f.DeclaresOnce .lowered))
      ∧ ((∀ part ∈ f.emitted, part.kind ≠ .tryStmt) →
        (f.DeclaresOnce .lowered ↔ f.DeclaresOnce .written)) := by
  intro f
  constructor
  · obtain ⟨hName, hParams, hBlock, hBody⟩ := hShaped
    have hInside := Lower.lowerStatements_declares body (Lower.missing_or_block hBlock) hBody
    have hFunc : Lower.onceWalk.Settles false (Lower.lower f) _ f.headings :=
      Lower.func_settles hName hParams hBlock hInside
    obtain ⟨codes, ⟨s', hRun, -, hCodes⟩, hLines⟩ := hFunc s
    refine ⟨s', codes, hRun, hCodes, ?_⟩
    have hText := hLines [] [] [] [] rfl
    rw [List.append_nil] at hText
    rw [Go.DeclaresOnce, Stmt.DeclaresOnce, Stmt.declareOnce, Lower.isSome_ite]
    change OpenBlocks.lines ⟨[[]], f.headings⟩ codes = _ at hText
    rw [hText]
    split
    next hOnce => exact iff_of_true rfl hOnce
    next hTwice => exact iff_of_false (fun h => nomatch h) hTwice
  · intro hNone
    rw [Stmt.DeclaresOnce, Stmt.DeclaresOnce, f.declareOnce_written hNone]

/-- The body of a function whose tries come behind a parameter `err` and behind each other. Their
closures, arms and loops declare names of the blocks around them. -/
def reusingBody : Stmt :=
  let name (text : String) := Expr.ident Token.blank text
  let block := Stmt.block Token.blank
  let define (text : String) := Stmt.define Token.blank [name text] [name "a"]
  let clause := Stmt.catchClause Token.blank (name "e")
  let inner := Stmt.tryCatch Token.blank (block [define "err"]) [] .missing
  let body := block [define "err", .loop Token.blank (define "x") .missing .missing (block [inner])]
  block [define "x", .tryCatch Token.blank body
    [clause (some "*E") (block [define "e"]), clause none (block [define "x"])]
    (block [define "e", inner])]

/-- No name is declared twice in a block of this function. -/
theorem func_declaresOnce_iff_reusingBody :
    let f := Stmt.func Token.blank (.ident Token.blank "f")
      [.ident Token.blank "a", .ident Token.blank "err"] [none, some "error"] none reusingBody
    f.Shaped ∧ ∃ s' codes, Lower.lower f Lower.State.init = .ok () s' ∧ s'.codes = codes
      ∧ Go.DeclaresOnce f.headings codes := by
  intro f
  have hShaped : f.Shaped := by
    simp [f, reusingBody, Stmt.AllShaped, Stmt.Shaped, Stmt.AllClausesShaped, Stmt.isMissing,
      Stmt.isBlock, Expr.isIdent, Expr.isMissing, Expr.hasLongField, Expr.anyLongField]
  obtain ⟨⟨s', codes, hRun, hCodes, hIff⟩, -⟩ :=
    func_declaresOnce_iff Token.blank _ _ _ none reusingBody hShaped Lower.State.init
  exact ⟨hShaped, s', codes, hRun, hCodes, hIff.mpr (by decide +kernel)⟩

/-! ### Names as they are written -/

/-- Whether a source is read without a report into functions that declare no name twice as they are
written, and its Go declares one again. -/
def RedeclaresInGo (source : String) : Prop :=
  ∃ program lines, (parse source).result = .ok program ∧ (parse source).reports = []
    ∧ (∀ s ∈ program.statements, s.kind = .function ∧ s.DeclaresOnce .written)
    ∧ program.lower.result = .ok lines
    ∧ ¬Go.DeclaresOnce (Stmt.allHeadings program.statements) (lines.map Go.Line.code)

/-- A source may be checked by reading and lowering it. -/
theorem redeclaresInGo_of_run {source : String} :
    let program := (parse source).result.toOption.getD default
    let lines := program.lower.result.toOption.getD []
    (parse source).result.toOption.isSome = true ∧ (parse source).reports = []
      ∧ (∀ s ∈ program.statements, s.kind = .function ∧ s.DeclaresOnce .written)
      ∧ program.lower.result.toOption.isSome = true
      ∧ ¬Go.DeclaresOnce (Stmt.allHeadings program.statements) (lines.map Go.Line.code) →
    RedeclaresInGo source := by
  rintro program lines ⟨hRead, hReports, hOnce, hLowered, hTwice⟩
  exact ⟨program, lines, eq_ok_getD default hRead, hReports, hOnce, eq_ok_getD [] hLowered, hTwice⟩

/-- A cleanup that declares a name of the block around the try. -/
def cleanupSource : String :=
  "func f() \x7b x := 1; h(x); try \x7b g() \x7d finally \x7b x := 2; h(x) \x7d \x7d"

def laterErrSource : String :=
  "func f() \x7b try \x7b g() \x7d catch (e) \x7b h(e) \x7d; err := g(); h(err) \x7d"

/-- A catch-all that declares its variable. -/
def caughtSource : String := "func f() \x7b try \x7b g() \x7d catch (e) \x7b e := 1; h(e) \x7d \x7d"

/-- Each of these sources declares a name twice in one block of the output. -/
theorem redeclaresInGo_sources :
    RedeclaresInGo cleanupSource ∧ RedeclaresInGo laterErrSource ∧ RedeclaresInGo caughtSource :=
  ⟨redeclaresInGo_of_run (by decide +kernel), redeclaresInGo_of_run (by decide +kernel),
    redeclaresInGo_of_run (by decide +kernel)⟩

end TryGo
