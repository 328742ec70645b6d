import TryGo.Proofs.Alone.Balanced
import TryGo.Proofs.Gate.Lowering
import TryGo.Proofs.Step.Account

/-! How the body of a function ends. A function whose only result is an error that it has gained may
not run off its end, so behind a body without a last return one is written. That is done if the
source declares no result at all, but not if it declares an empty list of results. -/
namespace TryGo

/-! ### The last line at a depth -/

namespace Go

def Code.isReturn : Code → Bool
  | .ret _ | .throwReturn _ _ => true
  | _ => false

def Code.isComment : Code → Bool
  | .comment _ _ => true
  | _ => false

/-- What the last line at a depth says, comments apart. -/
def lastAt (depth : Nat) (lines : List Line) : Option Code :=
  let counted := lines.filter fun line => line.depth == depth && !line.code.isComment
  counted.getLast?.map Line.code

/-- The last line of lines in a row is that of the second part, if it has one at that depth. -/
theorem lastAt_append (depth : Nat) (lines more : List Line) :
    lastAt depth (lines ++ more) = (lastAt depth more).or (lastAt depth lines) := by
  simp only [lastAt, List.filter_append, List.getLast?_append, Option.map_or]

theorem lastAt_singleton {code : Code} (hCode : code.isComment = false) (depth : Nat) :
    lastAt depth [⟨depth, code⟩] = some code := by
  simp [lastAt, hCode]

end Go

mutual

/-- Whether the last line that is written for a statement at its own depth is a return, comments
apart. A try ends with its cleanup, which stands behind it at the same depth, or else with a
brace or a use of its error. -/
def Stmt.lastReturns : Stmt → Option Bool
  | .comment _ _ _ => none
  | .ret _ _ | .throw _ _ => some true
  | .tryCatch _ _ _ cleanup => some (cleanup.lastInsideReturns.getD false)
  | _ => some false

def Stmt.lastOfAllReturns : List Stmt → Option Bool
  | [] => none
  | s :: rest => (Stmt.lastOfAllReturns rest).or s.lastReturns

def Stmt.lastInsideReturns : Stmt → Option Bool
  | .block _ statements => Stmt.lastOfAllReturns statements
  | _ => none

end

namespace Lower

/-- How lines end some levels deeper than they start: whether their last one there, comments apart,
is a return. -/
def endAccount (levels : Nat) : Account (Option Bool) where
  Covers _ _ := True
  Amounts depth lines last := (Go.lastAt (depth + levels) lines).map Go.Code.isReturn = last
  none := none
  both last more := more.or last
  none_both _ := Option.or_none
  both_none _ := rfl
  amounts_nil _ := rfl
  amounts_append hFirst hMore := by rw [Go.lastAt_append, Option.map_or, hFirst, hMore]

/-- Whether a step that ends in a value adds lines whose last one some levels deeper, comments
apart, is there and is a return or not. -/
abbrev EndsAt (levels : Nat) {α : Type} (step : LowerM α) (last : Option Bool) : Prop :=
  (endAccount levels).Adds step last

section Steps

variable {α β : Type} {levels : Nat} {body : LowerM Unit} {last : Option Bool}

theorem endsAt_line {code : Go.Code} (hCode : code.isComment = false) :
    EndsAt 0 (emit code) (some code.isReturn) :=
  .emit fun depth _ _ => congrArg (Option.map Go.Code.isReturn) (Go.lastAt_singleton hCode depth)

theorem endsAt_close : EndsAt 0 (emit .close) (some false) := endsAt_line rfl

/-- What stands in front of a last line does not matter. -/
theorem EndsAt.behind {first : LowerM α} {next : α → LowerM β} {returns : Bool} [Balanced first]
    (hNext : ∀ a, EndsAt levels (next a) (some returns)) :
    EndsAt levels (first >>= next) (some returns) := by
  refine .past (fun {depth front lines} hLast => ?_) hNext
  obtain ⟨code, hCode, hReturns⟩ := Option.map_eq_some_iff.mp hLast
  change (Go.lastAt (depth + levels) (front ++ lines)).map Go.Code.isReturn = some returns
  rw [Go.lastAt_append, hCode, Option.some_or, Option.map_some, hReturns]

/-- What a block ends with is one level deeper. -/
theorem EndsAt.inBlock (hBody : EndsAt 0 body last) (names : List String) :
    EndsAt 1 (inBlock names body) last := Account.Adds.inBlock hBody names id id

theorem EndsAt.deeper (hBody : EndsAt 0 body last) : EndsAt 1 (deeper body) last :=
  Account.Adds.deeper hBody id id

/-- The frame makes no difference. -/
theorem EndsAt.inFrame (hBody : EndsAt levels body last) (frame : Frame) :
    EndsAt levels (inFrame frame body) last := Account.Adds.inFrame hBody frame id id

end Steps

/-- An import ends in its only line, or in the one that closes its group. -/
theorem endsAt_importLines (paths : List String) : EndsAt 0 (importLines paths) (some false) := by
  have hGroup : EndsAt 0
      (do
        emit .importOpen
        deeper (paths.forM fun path => emit (.groupedPath path))
        emit .importClose) (some false) :=
    .behind fun _ => .behind fun _ => endsAt_line rfl
  unfold importLines
  split
  next path => exact endsAt_line rfl
  next => exact hGroup

/-- Behind the last arm of a conditional stands its brace. -/
theorem lowerElse_endsAt (s : Stmt) : EndsAt 0 (lowerElse s) (some false) := by
  cases s with
  | missing => exact endsAt_close
  | block _ statements | program _ statements =>
      have := lowerAll_balanced statements
      exact .behind fun _ => .behind fun _ => endsAt_close
  | ifElse _ condition consequence alternative =>
      have := lowerBlock_balanced [] consequence
      exact .behind fun _ => .behind fun _ => .behind fun _ => lowerElse_endsAt alternative
  | _ => exact .behind fun _ => .noBlock _ []

/-- Behind a function stands its brace. -/
theorem endsAt_func {token : Token} {name : Expr} {params : List Expr}
    {types : List (Option String)} {result : Option String} {body : Stmt} :
    EndsAt 0 (lower (.func token name params types result body)) (some false) := by
  have := fun names => lowerBlock_balanced names body
  have hRest (frame : Frame) (signature : String) (closes : Bool) : EndsAt 0
      (do
        checkForms (params.take types.length)
        emit (.funcOpen signature)
        inFrame frame do
          lowerBlock (← namesOf params) body
          if closes then deeper (emit (.ret ["nil"]))
        emit .close) (some false) :=
    .behind fun _ => .behind fun _ => .behind fun _ => endsAt_close
  rw [lower]
  exact .behind fun _ => .ite (fun _ => .behind fun _ => hRest _ _ _) fun _ => hRest _ _ _

/-- Behind a try stands its cleanup, at the same depth. -/
theorem endsAt_tryCatch {token : Token} {body cleanup : Stmt} {catches : List Stmt}
    (hCleanup : EndsAt 0 (lowerStatements cleanup) cleanup.lastInsideReturns) :
    EndsAt 0 (lower (.tryCatch token body catches cleanup))
      (Stmt.tryCatch token body catches cleanup).lastReturns := by
  have := lowerStatements_balanced body
  have := lowerCatches_balanced false catches
  have hLast {code : Go.Code} (hCode : code.isComment = false) (hOther : code.isReturn = false) :
      EndsAt 0 (do emit code; lowerStatements cleanup)
        (some (cleanup.lastInsideReturns.getD false)) := by
    refine ((endsAt_line hCode).seq hCleanup).congr ?_
    rw [hOther]
    exact Option.or_some
  rw [lower, Stmt.lastReturns]
  refine .behind fun _ => .behind fun _ => .behind fun _ => .behind fun _ => .behind fun _ =>
    .ite (fun _ => hLast rfl rfl) fun _ => ?_
  exact EndsAt.behind fun _ => EndsAt.behind fun _ => hLast rfl rfl

mutual

/-- A statement ends as its tree says. The induction goes through the cleanups of tries only, since
any other construct ends in a line of its own. -/
theorem lower_endsAt : (s : Stmt) → s.Formed → EndsAt 0 (lower s) s.lastReturns
  | .imports _ paths, _ => endsAt_importLines paths
  | .func _ _ _ _ _ _, _ => endsAt_func
  | .ret _ _, _ => .lowerReturn fun _ _ _ => endsAt_line rfl
  | .throw _ _, _ => .lowerThrow fun _ _ _ => endsAt_line rfl
  | .block _ statements, _ =>
      have := lowerAll_balanced statements
      .behind fun _ => .behind fun _ => endsAt_close
  | .ifElse _ condition consequence alternative, _ =>
      have := lowerBlock_balanced [] consequence
      .behind fun _ => .behind fun _ => .behind fun _ => lowerElse_endsAt alternative
  | .loop _ init condition update body, _ =>
      have := lowerBlock_balanced [] body
      .inScope (EndsAt.behind fun _ => EndsAt.behind fun _ => EndsAt.behind fun _ => endsAt_close)
  | .comment _ text multiline, _ => .emit fun depth _ _ => by
      simp [endAccount, Go.lastAt, Go.Code.isComment, Stmt.lastReturns]
  | .branch token, _ => by
      rw [lower]
      split
      · exact endsAt_line rfl
      · exact .fault _
  | .tryCatch _ body catches cleanup, ⟨_, _, _, hPlace, hCleanup⟩ =>
      endsAt_tryCatch (lowerStatements_endsAt cleanup hPlace hCleanup)
  | .decl _ _ _ _ _, _ | .define _ _ _, _ | .assign _ _ _ _, _ | .incr _ _ _, _ | .expr _ _, _ =>
      .simple (endsAt_line rfl)
  | .package _ _, _ | .missing, _ | .catchClause _ _ _ _, _ | .bare _, _ | .program _ _, _ =>
      endsAt_line rfl

/-- Statements in a row end as the last of them that writes a line does. -/
theorem lowerAll_endsAt : (statements : List Stmt) → Stmt.AllFormed statements →
    EndsAt 0 (lowerAll statements) (Stmt.lastOfAllReturns statements)
  | [], _ => .value ()
  | s :: rest, hFormed => (lower_endsAt s hFormed.1).seq (lowerAll_endsAt rest hFormed.2)

theorem lowerStatements_endsAt (s : Stmt) (hPlace : (s.isMissing || s.isBlock) = true)
    (hFormed : s.Formed) : EndsAt 0 (lowerStatements s) s.lastInsideReturns := by
  cases s with
  | missing => exact .value ()
  | block _ statements => exact lowerAll_endsAt statements hFormed
  | _ => cases hPlace

end

end Lower

/-! ### Functions that gain their only result -/

/-- Statements that end in a return write one as the last line. -/
theorem lastOfAllReturns_of_endsInReturn {statements : List Stmt}
    (hEnds : Lower.endsInReturn statements = true) :
    Stmt.lastOfAllReturns statements = some true := by
  induction statements with
  | nil => cases hEnds
  | cons s rest ih =>
      rw [Stmt.lastOfAllReturns]
      cases rest with
      | nil => cases s <;> first | rfl | cases hEnds
      | cons next rest =>
          rw [Lower.endsInReturn, List.getLast?_cons_cons] at hEnds
          rw [ih hEnds, Option.some_or]

/-- So does a block of them. -/
theorem lastInsideReturns_of_endsInReturn {body : Stmt} (hBlock : body.isBlock = true)
    (hEnds : Lower.endsInReturn (Lower.statementsOf body) = true) :
    body.lastInsideReturns = some true := by
  cases body with
  | block _ statements => exact lastOfAllReturns_of_endsInReturn hEnds
  | _ => cases hBlock

/-- A function without results returns only the error that it gains. -/
theorem emittedResult_of_nil {result : Option String} {body : Stmt}
    (hNone : splitResults result = []) (hNeeds : body.needsErrorHandling = true) :
    Lower.emittedResult result body = some errorType ∧ some errorType ≠ result := by
  constructor
  · rw [Lower.emittedResult, if_pos hNeeds, augmentResult, hNone]
    rfl
  · rintro rfl
    exact absurd hNone (by decide)

/-- The body of a function ends in the return that is added to it, or else as its statements do. -/
theorem Lower.endsAt_funcBody {body : Stmt} (names : List String) (closes : Bool)
    (hPlace : (body.isMissing || body.isBlock) = true) (hFormed : body.Formed) :
    Lower.EndsAt 1
      (do
        Lower.inBlock names (Lower.lowerStatements body)
        if closes then Lower.deeper (Lower.emit (.ret ["nil"])))
      ((if closes then some true else none).or body.lastInsideReturns) := by
  have hAdded : Lower.EndsAt 1
      (if closes then Lower.deeper (Lower.emit (.ret ["nil"])) else pure ())
      (if closes then some true else none) := by
    split
    · exact (Lower.endsAt_line rfl).deeper
    · exact .value ()
  exact Lower.Account.Adds.seq ((Lower.lowerStatements_endsAt body hPlace hFormed).inBlock names)
    hAdded

/-- A return is added if there is no list of results and the statements do not end in one, so the
body ends in a return in any case then. -/
theorem addsReturn_or_iff {result : Option String} {body : Stmt} (hBlock : body.isBlock = true) :
    (if result.isNone && !Lower.endsInReturn (Lower.statementsOf body) then some true else none).or
        body.lastInsideReturns = some true ↔
      result = none ∨ body.lastInsideReturns = some true := by
  cases result with
  | none =>
      refine iff_of_true ?_ (.inl rfl)
      cases hEnds : Lower.endsInReturn (Lower.statementsOf body) with
      | false => rfl
      | true => exact lastInsideReturns_of_endsInReturn hBlock hEnds
  | some text => simp

/-- A function that declares no results, and for whose body a try or a throw is written, returns an
error. Its body ends in a return if the source has no list of results at all. If it has an
empty one, the body ends in a return only if its own statements do. -/
theorem func_endsInReturn_iff (token : Token) (name : Expr) (params : List Expr)
    (types : List (Option String)) (result : Option String) (body : Stmt)
    (hShaped : (Stmt.func token name params types result body).Shaped)
    (hNone : splitResults result = []) (hRaises : body.raises = true) (s : Lower.State) :
    ∃ s' inside, Lower.lower (.func token name params types result body) s = .ok () s'
      ∧ s'.lines.reverse = s.lines.reverse
          ++ ⟨s.depth, .funcOpen (signatureText name params types (some errorType))⟩
            :: (inside ++ [⟨s.depth, .close⟩])
      ∧ ((∃ code, Go.lastAt (s.depth + 1) inside = some code ∧ code.isReturn = true)
        ↔ result = none ∨ body.lastInsideReturns = some true) := by
  obtain ⟨hName, hParams, hBlock, hBody⟩ := hShaped
  have hNeeds : body.needsErrorHandling = true := by
    rw [body.needsErrorHandling_eq (Stmt.Shaped.formed body hBody), hRaises]
  obtain ⟨hEmitted, hAugmented⟩ := emittedResult_of_nil hNone hNeeds
  have hResults : splitResults (some errorType) = [errorType] := by decide
  let closes := result.isNone && !Lower.endsInReturn (Lower.statementsOf body)
  have hPlace := Lower.missing_or_block hBlock
  have hInside := (Lower.endsAt_funcBody (params.map Expr.text) closes hPlace
    (Stmt.Shaped.formed body hBody)).inFrame ⟨[errorType], true⟩
  have hSound := Lower.sound_funcBody (params.map Expr.text) closes
    (Lower.lowerStatements_sound body hPlace hBody False.elim)
  let heading : Go.Line := ⟨s.depth, .funcOpen (signatureText name params types (some errorType))⟩
  let event := Event.augmented name.text (if isTyped result then result.getD "" else "(none)")
    errorType
  let opened : Lower.State :=
    { s with lines := heading :: s.lines, events := event :: s.events }
  obtain ⟨⟨⟩, inner, hRun⟩ := (Lower.Composed.inFrame ⟨[errorType], true⟩ hSound).exists_ok opened
  obtain ⟨hDepth, -, inside, hLines, hEnd⟩ := hInside opened () inner trivial hRun
  refine ⟨{ inner with lines := ⟨inner.depth, .close⟩ :: inner.lines }, inside, ?_, ?_, ?_⟩
  · rw [Lower.lower_func hName hParams hBlock]
    simp only [hEmitted, bne_iff_ne.mpr hAugmented, Bool.true_and, if_true]
    change (Lower.inFrame ⟨splitResults (some errorType), true⟩ _ >>= fun _ => Lower.emit .close)
      opened = _
    rw [hResults, Lower.bind_run, hRun]
    rfl
  · change (_ :: inner.lines).reverse = _
    rw [List.reverse_cons, hLines, hDepth, List.reverse_append, List.reverse_reverse]
    simp [opened, heading]
  · have hReturns : (∃ code, Go.lastAt (s.depth + 1) inside = some code ∧ code.isReturn = true) ↔
        (Go.lastAt (s.depth + 1) inside).map Go.Code.isReturn = some true :=
      Option.map_eq_some_iff.symm
    rw [hReturns]
    change (Go.lastAt (s.depth + 1) inside).map Go.Code.isReturn = _ at hEnd
    rw [hEnd]
    exact addsReturn_or_iff hBlock

/-- The body of a function that only guards a call. -/
def guardedCall : Stmt :=
  let call := Expr.call Token.blank (.ident Token.blank "g") []
  let guarded := Stmt.block Token.blank [.expr Token.blank call]
  .block Token.blank [.tryCatch Token.blank guarded
    [.catchClause Token.blank .missing none (.block Token.blank [])] .missing]

/-- With no result the function ends in a return, and with an empty list of results it does not. -/
theorem func_endsInReturn_iff_guardedCall :
    guardedCall.raises = true ∧ ∀ result ∈ [none, some "()"], splitResults result = []
      ∧ ∃ s' inside,
        Lower.lower (.func Token.blank (.ident Token.blank "f") [] [] result guardedCall)
          Lower.State.init = .ok () s'
        ∧ s'.lines.reverse =
          ⟨0, .funcOpen "f() error"⟩ :: (inside ++ [⟨0, .close⟩])
        ∧ ((∃ code, Go.lastAt 1 inside = some code ∧ code.isReturn = true) ↔ result = none) := by
  have hRaises : guardedCall.raises = true := by decide
  refine ⟨hRaises, fun result hMem => ?_⟩
  have hNone : splitResults result = [] := by
    revert result
    decide
  have hShaped :
      (Stmt.func Token.blank (.ident Token.blank "f") [] [] result guardedCall).Shaped := by
    simp [guardedCall, Stmt.AllShaped, Stmt.Shaped, Stmt.AllClausesShaped, Stmt.isMissing,
      Stmt.isBlock, Expr.isIdent, Expr.isMissing, Expr.hasLongField, Expr.anyLongField]
  obtain ⟨s', inside, hRun, hLines, hEnds⟩ := func_endsInReturn_iff Token.blank _ [] [] result
    guardedCall hShaped hNone hRaises Lower.State.init
  have hOpen : guardedCall.lastInsideReturns ≠ some true := by decide
  exact ⟨hNone, s', inside, hRun, hLines, hEnds.trans (or_iff_left hOpen)⟩

/-- Whether a statement is a function that declares no results and is written with a try or a
throw. -/
def Stmt.gainsOnlyResult : Stmt → Bool
  | .func _ _ _ _ result body => splitResults result == [] && body.raises
  | _ => false

def emptyListSource : String := "func f() () \x7b try \x7b g() \x7d catch \x7b \x7d \x7d"

/-- A function that has gained its only result runs off its end. -/
theorem func_runsOffEnd :
    ∃ program lines, (parse emptyListSource).result = .ok program
      ∧ (parse emptyListSource).reports = []
      ∧ program.statements.map Stmt.gainsOnlyResult = [true]
      ∧ program.lower.result = .ok lines
      ∧ lines.filter (fun line => line.depth == 0) = [⟨0, .funcOpen "f() error"⟩, ⟨0, .close⟩]
      ∧ Go.lastAt 1 lines = some .close := by
  obtain ⟨program, hResult, hReports, hFacts⟩ := Parse.Reading.exists_ok (parse emptyListSource)
    (fun program => program.statements.map Stmt.gainsOnlyResult == [true]
      && program.lower.result.toOption.any fun lines =>
        lines.filter (fun line => line.depth == 0) == [⟨0, .funcOpen "f() error"⟩, ⟨0, .close⟩]
          && Go.lastAt 1 lines == some .close) (by decide +kernel)
  obtain ⟨hGains, hLowered⟩ := Bool.and_eq_true_iff.mp hFacts
  obtain ⟨lines, hLines, hEnds⟩ := Parse.exists_ok_of_test program.lower.result _ hLowered
  simp only [Bool.and_eq_true, beq_iff_eq] at hGains hEnds
  exact ⟨program, lines, hResult, hReports, hGains, hLines, hEnds.1, hEnds.2⟩

end TryGo
