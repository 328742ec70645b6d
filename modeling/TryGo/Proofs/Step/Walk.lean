import TryGo.Proofs.Shaped.Equations
import TryGo.Proofs.Step.Run

/-! Going over the lines that a step adds. Lines open and close blocks and declare names in them,
and what that comes to may be asked in more than one way. The rules by which the steps of the
lowering are put together are the same for all of them, and are stated here once, from single lines
up to the constructs that are lowered in several steps.

Some steps keep the block in which they start, some declare names in it, and some fill a new one.
The innermost scope agrees with the innermost block, so that a try finds out rightly whether its
error is new. -/
namespace TryGo

namespace Go

/-- Whether a line ends with the brace that opens a block. -/
def Code.opens : Code → Bool
  | .funcOpen _ | .blockOpen | .ifOpen _ _ | .elseOpen | .forOpen _ | .tryOpen _ | .errCheck
  | .catchOpen _ _ _ => true
  | _ => false

/-- Whether a line opens a block that has no names to begin with and is due to nothing else. -/
def Code.opensBare : Code → Bool
  | .blockOpen | .ifOpen _ _ | .elseOpen | .errCheck | .catchOpen _ _ _ => true
  | _ => false

/-- Whether a line stands in a block and leaves it as it is. -/
def Code.isPlain : Code → Bool
  | .decl _ _ _ _ | .define _ _ | .bindErr _ => false
  | code => !code.closes && !code.opens

/-- Whether a line stands in a block, which it neither leaves nor opens. -/
def Code.isInner (code : Code) : Bool := !code.closes && !code.opens

/-- A plain line stands inside some block. -/
theorem Code.isInner_of_isPlain {code : Code} (hPlain : code.isPlain = true) :
    code.isInner = true := by
  cases code <;> first | exact hPlain | cases hPlain

end Go

namespace Lower

/-! ### Where a step ends -/

def State.codes (s : State) : List Go.Code := (s.lines.map Go.Line.code).reverse

/-- Whether a step ends in a value, in some scopes, and adds lines that say something. -/
def EndsIn {α : Type} (step : LowerM α) (s : State) (a : α) (scopes : List (List String))
    (codes : List Go.Code) : Prop :=
  ∃ s', step s = .ok a s' ∧ s'.scopes = scopes ∧ s'.codes = s.codes ++ codes

section Ends

variable {α β : Type} {s : State} {scope : List String} {scopes outer : List (List String)}
  {codes : List Go.Code}

/-- What a step adds comes in front of what the next one adds. -/
theorem EndsIn.bind {first : LowerM α} {f : α → LowerM β} {a : α}
    (hFirst : EndsIn first s a scopes codes) :
    ∃ middle, middle.scopes = scopes ∧ ∀ b scopes' more, EndsIn (f a) middle b scopes' more →
      EndsIn (first >>= f) s b scopes' (codes ++ more) := by
  obtain ⟨middle, hRun, hScopes, hCodes⟩ := hFirst
  refine ⟨middle, hScopes, fun b scopes' more hNext => ?_⟩
  obtain ⟨s', hRun', hScopes', hCodes'⟩ := hNext
  refine ⟨s', ?_, hScopes', by rw [hCodes', hCodes, List.append_assoc]⟩
  rw [bind_run, hRun]
  exact hRun'

theorem endsIn_pure (a : α) : EndsIn (pure a) s a s.scopes [] :=
  ⟨s, rfl, rfl, (List.append_nil _).symm⟩

/-- A change of the state that leaves the lines alone. -/
theorem endsIn_modify {change : State → State} (hLines : (change s).lines = s.lines) :
    EndsIn (modify change) s () (change s).scopes [] :=
  ⟨change s, rfl, rfl, by rw [State.codes, hLines, List.append_nil]; rfl⟩

/-- Writing adds one line and leaves the scopes. -/
theorem endsIn_emit (code : Go.Code) : EndsIn (emit code) s () s.scopes [code] := by
  refine ⟨_, rfl, rfl, ?_⟩
  rw [State.codes, List.map_cons, List.reverse_cons]
  rfl

/-- Declaring adds names to the innermost scope. -/
theorem endsIn_declare (added : List String) (hScopes : s.scopes = scope :: outer) :
    EndsIn (declare added) s () ((added ++ scope) :: outer) [] :=
  ⟨_, rfl, by simp only [hScopes], (List.append_nil _).symm⟩

/-- The names of some lines may be declared without writing the lines, as a loop does. -/
theorem endsIn_declares (lines : List Go.Code) (hScopes : s.scopes = scope :: outer) :
    ∃ scope', EndsIn (lines.forM fun line => declare line.declares) s () (scope' :: outer) [] := by
  induction lines generalizing s scope with
  | nil => exact ⟨scope, hScopes ▸ endsIn_pure ()⟩
  | cons line rest ih =>
      obtain ⟨middle, hMiddle, hThen⟩ := (endsIn_declare line.declares hScopes).bind
        (f := fun _ => rest.forM fun line => declare line.declares)
      obtain ⟨scope', hRest⟩ := ih hMiddle
      exact ⟨scope', hThen _ _ _ hRest⟩

/-- A try tells the error that its scope has from a new one. -/
theorem endsIn_tryOpen (hScopes : s.scopes = scope :: outer) :
    EndsIn
      (do
        let reuse ← isDeclared "err"
        declare ["err"]
        emit (.tryOpen reuse))
      s () (("err" :: scope) :: outer) [.tryOpen (scope.contains "err")] := by
  have hReuse : (s.scopes.headD []).contains "err" = scope.contains "err" := by rw [hScopes]; rfl
  rw [← hReuse]
  refine ⟨_, rfl, ?_, ?_⟩
  · simp only [hScopes]
    rfl
  · rw [State.codes, List.map_cons, List.reverse_cons]
    rfl

end Ends

/-! ### Ways of going over lines -/

/-- A way of going over lines. It leads from the blocks that are open in front of some lines to
those behind them, or it stops. Blocks are given by their names, with the innermost first, and with
them goes what is still due, which some lines use up. -/
structure Walk (Due Blocks : Type) where
  blocks : List (List String) → List Due → Blocks
  /-- Whether some lines lead from some blocks to others, or to a stop. -/
  Goes : Blocks → List Go.Code → Option Blocks → Prop
  /-- The names of a block behind a line in it, if going on is possible. -/
  names : Go.Code → List String → Option (List String)
  /-- Whether a scope of the lowering stands for a block. -/
  Agrees : List String → List String → Prop
  goes_nil : ∀ before, Goes before [] (some before)
  goes_append : ∀ {before middle codes more after}, Goes before codes (some middle) →
    Goes middle more after → Goes before (codes ++ more) after
  goes_stop : ∀ {before codes more}, Goes before codes none → Goes before (codes ++ more) none
  goes_line : ∀ {code level levels due}, code.isInner = true →
    Goes (blocks (level :: levels) due) [code]
      ((names code level).map fun after => blocks (after :: levels) due)
  goes_open : ∀ {code opened level levels due}, code.opensBare = true →
    opened.length = code.closes.toNat →
      Goes (blocks (opened ++ level :: levels) due) [code]
        (some (blocks ([] :: level :: levels) due))
  goes_close : ∀ {code inner level levels due}, code = .close ∨ code = .tryClose →
    Goes (blocks (inner :: level :: levels) due) [code] (some (blocks (level :: levels) due))
  names_plain : ∀ {code} level, code.isPlain = true → names code level = some level
  agrees_refl : ∀ scope, Agrees scope scope
  agrees_line : ∀ {code scope level after}, code.isInner = true → Agrees scope level →
    names code level = some after → Agrees (code.declares ++ scope) after

namespace Walk

variable {Due Blocks : Type} {W : Walk Due Blocks}

/-- Whether a step keeps the scopes and adds lines that keep the open blocks, if they do not lead to
a stop. The lines use up what is due. If the step is chained, they start by closing one block more.
-/
def Settles (W : Walk Due Blocks) (chained : Bool) (step : LowerM Unit) (once : Bool)
    (due : List Due) : Prop :=
  ∀ s, ∃ codes, EndsIn step s () s.scopes codes
    ∧ ∀ opened level levels later, opened.length = chained.toNat →
      W.Goes (W.blocks (opened ++ level :: levels) (due ++ later)) codes
        (if once then some (W.blocks (level :: levels) later) else none)

/-- Whether a step changes the innermost scope only, and adds lines that change the innermost block
in the same way, if they do not lead to a stop. -/
def Declares (W : Walk Due Blocks) (step : LowerM Unit)
    (names : List String → Option (List String)) (due : List Due) : Prop :=
  ∀ s scope outer, s.scopes = scope :: outer → ∃ scope' codes,
    EndsIn step s () (scope' :: outer) codes
      ∧ ∀ level, W.Agrees scope level →
        (∀ levels later, W.Goes (W.blocks (level :: levels) (due ++ later)) codes
          ((names level).map fun after => W.blocks (after :: levels) later))
        ∧ ∀ after, names level = some after → W.Agrees scope' after

/-- Whether a step keeps the scopes and writes the inside of a block that starts with some names. -/
def Fills (W : Walk Due Blocks) (own : List String) (step : LowerM Unit)
    (names : List String → Option (List String)) (due : List Due) : Prop :=
  ∀ s, ∃ codes, EndsIn step s () s.scopes codes
    ∧ ∀ level, W.Agrees own level → ∀ levels later,
      W.Goes (W.blocks (level :: levels) (due ++ later)) codes
        ((names level).map fun after => W.blocks (after :: levels) later)

/-- Whether a line opens a block that starts with some names, or else leads to a stop. If it is
chained, it closes a block in front of that. -/
def Opens (W : Walk Due Blocks) (chained : Bool) (code : Go.Code) (due : List Due)
    (start : Option (List String)) : Prop :=
  ∀ opened level levels later, opened.length = chained.toNat →
    W.Goes (W.blocks (opened ++ level :: levels) (due ++ later)) [code]
      (start.map fun own => W.blocks (own :: level :: levels) later)

/-- Whether the line of a try opens its closure, if it tells rightly whether the error is new. The
error is a name of the block around from there on. -/
def Tries (W : Walk Due Blocks) (due : List Due) (added : List String → List String) : Prop :=
  ∀ scope level, W.Agrees scope level →
    W.Agrees ("err" :: scope) (added level)
      ∧ ∀ levels later, W.Goes (W.blocks (level :: levels) (due ++ later))
        [.tryOpen (scope.contains "err")]
        (some (W.blocks ([] :: added level :: levels) later))

/-! ### Steps -/

section Steps

variable {chained once once' : Bool} {step next body tail : LowerM Unit}
  {names names' : List String → Option (List String)} {due more : List Due}

theorem Settles.congr (hStep : W.Settles chained step once due) (hOnce : once = once')
    (hDue : due = more) : W.Settles chained step once' more := hOnce ▸ hDue ▸ hStep

theorem Declares.congr (hStep : W.Declares step names due)
    (other : List String → Option (List String)) (hNames : ∀ level, names level = other level) :
    W.Declares step other due := (funext hNames : names = other) ▸ hStep

/-- A step that keeps the blocks declares nothing. -/
theorem Settles.declares (hStep : W.Settles false step once due) :
    W.Declares step (fun level => if once then some level else none) due := by
  intro s scope outer hScopes
  obtain ⟨codes, hEnds, hGoes⟩ := hStep s
  rw [hScopes] at hEnds
  refine ⟨scope, codes, hEnds,
    fun level hAgrees => ⟨fun levels later => ?_, fun after hAfter => ?_⟩⟩
  · have hLines := hGoes [] level levels later rfl
    cases once <;> exact hLines
  · split at hAfter
    · cases hAfter
      exact hAgrees
    · cases hAfter

/-- Two steps in a row declare what the first does and then what the second does. -/
theorem Declares.seq (hStep : W.Declares step names due) (hNext : W.Declares next names' more) :
    W.Declares (do step; next) (fun level => (names level).bind names') (due ++ more) := by
  intro s scope outer hScopes
  obtain ⟨scope', codes, hEnds, hBlocks⟩ := hStep s scope outer hScopes
  obtain ⟨middle, hMiddle, hThen⟩ := hEnds.bind (f := fun _ => next)
  obtain ⟨scope'', codes', hEnds', hBlocks'⟩ := hNext middle scope' outer hMiddle
  refine ⟨scope'', codes ++ codes', hThen _ _ _ hEnds', fun level hAgrees => ?_⟩
  obtain ⟨hGoes, hAfter⟩ := hBlocks level hAgrees
  constructor
  · intro levels later
    have hFirst := hGoes levels (more ++ later)
    rw [List.append_assoc]
    dsimp only
    cases hNames : names level with
    | none =>
        rw [hNames] at hFirst
        exact W.goes_stop hFirst
    | some middle =>
        rw [hNames] at hFirst
        exact W.goes_append hFirst ((hBlocks' middle (hAfter middle hNames)).1 levels later)
  · intro after hNames
    obtain ⟨middle, hFirst, hSecond⟩ := Option.bind_eq_some_iff.mp hNames
    exact (hBlocks' middle (hAfter middle hFirst)).2 after hSecond

/-- A step that declares nothing may stand behind another. -/
theorem Declares.after (hStep : W.Declares step names due) (hNext : W.Settles false next true []) :
    W.Declares (do step; next) names due := by
  have hBoth := hStep.seq hNext.declares
  rw [List.append_nil] at hBoth
  exact hBoth.congr names fun level => by cases names level <;> rfl

/-- A step that keeps the blocks may stand in front of another. -/
theorem Settles.before (hStep : W.Settles false step once due)
    (hNext : W.Settles chained next once' more) :
    W.Settles chained (do step; next) (once && once') (due ++ more) := by
  intro s
  obtain ⟨codes, hEnds, hGoes⟩ := hStep s
  obtain ⟨middle, hMiddle, hThen⟩ := hEnds.bind (f := fun _ => next)
  obtain ⟨codes', hEnds', hGoes'⟩ := hNext middle
  refine ⟨codes ++ codes', hThen _ _ _ (hMiddle ▸ hEnds'),
    fun opened level levels later hOpened => ?_⟩
  have hFirst : W.Goes (W.blocks (opened ++ level :: levels) (due ++ (more ++ later))) codes
      (if once then some (W.blocks (opened ++ level :: levels) (more ++ later)) else none) := by
    cases opened with
    | nil => exact hGoes [] level levels _ rfl
    | cons inner rest => exact hGoes [] inner (rest ++ level :: levels) _ rfl
  rw [List.append_assoc]
  cases once with
  | false => exact W.goes_stop hFirst
  | true => exact W.goes_append hFirst (hGoes' opened level levels later hOpened)

/-- A step that keeps the blocks may stand behind another. -/
theorem Settles.after (hStep : W.Settles chained step once due)
    (hNext : W.Settles false next once' more) :
    W.Settles chained (do step; next) (once && once') (due ++ more) := by
  intro s
  obtain ⟨codes, hEnds, hGoes⟩ := hStep s
  obtain ⟨middle, hMiddle, hThen⟩ := hEnds.bind (f := fun _ => next)
  obtain ⟨codes', hEnds', hGoes'⟩ := hNext middle
  refine ⟨codes ++ codes', hThen _ _ _ (hMiddle ▸ hEnds'),
    fun opened level levels later hOpened => ?_⟩
  have hFirst := hGoes opened level levels (more ++ later) hOpened
  rw [List.append_assoc]
  cases once with
  | false => exact W.goes_stop hFirst
  | true => exact W.goes_append hFirst (hGoes' [] level levels later rfl)

/-- A change of the state that leaves lines and scopes alone. -/
theorem settles_modify {change : State → State} (hLines : ∀ s, (change s).lines = s.lines)
    (hScopes : ∀ s, (change s).scopes = s.scopes) : W.Settles false (modify change) true [] := by
  intro s
  refine ⟨[], hScopes s ▸ endsIn_modify (hLines s), fun opened level levels later hOpened => ?_⟩
  rw [List.eq_nil_of_length_eq_zero hOpened]
  exact W.goes_nil _

theorem settles_pure : W.Settles false (pure ()) true [] := by
  intro s
  refine ⟨[], endsIn_pure (), fun opened level levels later hOpened => ?_⟩
  rw [List.eq_nil_of_length_eq_zero hOpened]
  exact W.goes_nil _

/-- An event writes no line. -/
theorem settles_record (event : Event) : W.Settles false (record event) true [] :=
  settles_modify (fun _ => rfl) fun _ => rfl

/-- A choice settles what both of its arms do. -/
theorem Settles.ite {condition : Prop} [Decidable condition] {other : LowerM Unit}
    (hThen : W.Settles chained step once due) (hElse : W.Settles chained other once due) :
    W.Settles chained (if condition then step else other) once due := by
  split
  · exact hThen
  · exact hElse

/-- A look at the innermost frame. -/
theorem settles_frame {f : Option Frame → LowerM Unit}
    (hNext : ∀ frame, W.Settles chained (f frame) once due) :
    W.Settles chained (frame? >>= f) once due := by
  intro s
  obtain ⟨codes, ⟨s', hRun, hEnds⟩, hGoes⟩ := hNext s.frames.head? s
  exact ⟨codes, ⟨s', hRun, hEnds⟩, hGoes⟩

/-- A plain line. -/
theorem settles_line {code : Go.Code} (hPlain : code.isPlain = true) :
    W.Settles false (emit code) true [] := by
  intro s
  refine ⟨[code], endsIn_emit code, fun opened level levels later hOpened => ?_⟩
  rw [List.eq_nil_of_length_eq_zero hOpened]
  have hLine : W.Goes (W.blocks (level :: levels) later) [code] _ :=
    W.goes_line (Go.Code.isInner_of_isPlain hPlain)
  rw [W.names_plain level hPlain] at hLine
  exact hLine

/-- A closing brace settles the block it ends. -/
theorem settles_close : W.Settles true (emit .close) true [] := by
  intro s
  refine ⟨[.close], endsIn_emit .close, fun opened level levels later hOpened => ?_⟩
  obtain ⟨inner, rfl⟩ := List.length_eq_one_iff.mp hOpened
  exact W.goes_close (.inl rfl)

/-- A line declares its names in the block where the lowering declares them in the scope. -/
theorem declares_line {code : Go.Code} (hInner : code.isInner = true) :
    W.Declares (do declare code.declares; emit code) (W.names code) [] := by
  intro s scope outer hScopes
  obtain ⟨middle, hMiddle, hThen⟩ := (endsIn_declare code.declares hScopes).bind
    (f := fun _ => emit code)
  exact ⟨_, _, hThen _ _ _ (hMiddle ▸ endsIn_emit code), fun level hAgrees =>
    ⟨fun _ _ => W.goes_line hInner, fun _ hAfter => W.agrees_line hInner hAgrees hAfter⟩⟩

/-- The depth of the lines makes no difference. -/
theorem Settles.deeper (hStep : W.Settles chained step once due) :
    W.Settles chained (deeper step) once due := by
  have hIndent : W.Settles false indent true [] := settles_modify (fun _ => rfl) fun _ => rfl
  have hDedent : W.Settles false dedent true [] := settles_modify (fun _ => rfl) fun _ => rfl
  exact (hIndent.before (hStep.after hDedent)).congr (by simp) (List.append_nil due)

/-- A header declares names in a scope of its own, which lasts as long as what it is for. -/
theorem Settles.inScope (hStep : W.Settles chained step once due) (header : List Go.Code) :
    W.Settles chained
      (inScope do
        header.forM fun line => declare line.declares
        step) once due := by
  intro s
  let opened : State := { s with scopes := [] :: s.scopes }
  have hOpened : opened.scopes = [] :: s.scopes := rfl
  obtain ⟨scope, hHeader⟩ := endsIn_declares header hOpened
  obtain ⟨middle, hMiddle, hThen⟩ := hHeader.bind (f := fun _ => step)
  obtain ⟨codes, hEnds, hGoes⟩ := hStep middle
  obtain ⟨inner, hRun, hScopes, hCodes⟩ := hThen _ _ _ hEnds
  refine ⟨codes, ⟨{ inner with scopes := inner.scopes.tail }, ?_, ?_, hCodes⟩, hGoes⟩
  · rw [inScope_run, hRun]
    rfl
  · exact congrArg List.tail (hScopes.trans hMiddle)

end Steps

/-! ### Blocks -/

section Blocks

variable {chained once : Bool} {step next body tail : LowerM Unit} {own : List String}
  {names : List String → Option (List String)} {code : Go.Code} {due first inside behind : List Due}

/-- A block of its own fills what the names it starts with have opened. -/
theorem Declares.inBlock (hBody : W.Declares body names due) (own : List String) :
    W.Fills own (inBlock own body) names due := by
  intro s
  obtain ⟨scope', codes, ⟨inner, hRun, hScopes, hCodes⟩, hBlocks⟩ :=
    hBody (s.inside own) own s.scopes rfl
  refine ⟨codes, ⟨inner.outside, ?_, congrArg List.tail hScopes, hCodes⟩,
    fun level hAgrees => (hBlocks level hAgrees).1⟩
  rw [inBlock_run, hRun]
  rfl

/-- The frame makes no difference. -/
theorem Fills.inFrame (hStep : W.Fills own step names due) (frame : Frame) :
    W.Fills own (inFrame frame step) names due := by
  intro s
  obtain ⟨codes, ⟨inner, hRun, hScopes, hCodes⟩, hGoes⟩ :=
    hStep { s with frames := frame :: s.frames }
  refine ⟨codes, ⟨{ inner with frames := inner.frames.tail }, ?_, hScopes, hCodes⟩, hGoes⟩
  rw [inFrame_run, hRun]
  rfl

/-- Plain lines may stand behind the contents of a block. -/
theorem Fills.after (hStep : W.Fills own step names due) (hNext : W.Settles false next true []) :
    W.Fills own (do step; next) names due := by
  intro s
  obtain ⟨codes, hEnds, hGoes⟩ := hStep s
  obtain ⟨middle, hMiddle, hThen⟩ := hEnds.bind (f := fun _ => next)
  obtain ⟨codes', hEnds', hGoes'⟩ := hNext middle
  refine ⟨codes ++ codes', hThen _ _ _ (hMiddle ▸ hEnds'), fun level hAgrees levels later => ?_⟩
  have hFirst := hGoes level hAgrees levels later
  cases hNames : names level with
  | none =>
      rw [hNames] at hFirst
      exact W.goes_stop hFirst
  | some after =>
      rw [hNames] at hFirst
      exact W.goes_append hFirst (hGoes' [] after levels later rfl)

/-- A block between a line that opens it and what closes it. -/
theorem Opens.arm {start : Option (List String)} (hOpen : W.Opens chained code first start)
    (hStart : ∀ level, start = some level → W.Agrees own level)
    (hBody : W.Fills own body names inside) (hTail : W.Settles true tail once behind) :
    W.Settles chained (do emit code; body; tail) ((start.bind names).isSome && once)
      (first ++ (inside ++ behind)) := by
  intro s
  obtain ⟨middle, hMiddle, hThen⟩ := (endsIn_emit (s := s) code).bind (f := fun _ => do body; tail)
  obtain ⟨codes, hEnds, hGoes⟩ := hBody middle
  obtain ⟨last, hLast, hThen'⟩ := hEnds.bind (f := fun _ => tail)
  obtain ⟨codes', hEnds', hGoes'⟩ := hTail last
  rw [hLast, hMiddle] at hEnds'
  refine ⟨[code] ++ (codes ++ codes'), hThen _ _ _ (hThen' _ _ _ hEnds'),
    fun opened level levels later hOpened => ?_⟩
  have hLine := hOpen opened level levels (inside ++ (behind ++ later)) hOpened
  rw [List.append_assoc, List.append_assoc]
  cases start with
  | none => exact W.goes_stop hLine
  | some own =>
      have hInside := hGoes own (hStart own rfl) (level :: levels) (behind ++ later)
      refine W.goes_append hLine ?_
      rw [Option.bind_some]
      cases hNames : names own with
      | none =>
          rw [hNames] at hInside
          exact W.goes_stop hInside
      | some after =>
          rw [hNames] at hInside
          exact W.goes_append hInside (hGoes' [after] level levels later rfl)

/-- A block that starts without names. -/
theorem Declares.arm (hBody : W.Declares body names inside) (hOpens : code.opensBare = true)
    (hCloses : code.closes = chained) (hTail : W.Settles true tail once behind) :
    W.Settles chained (do emit code; Lower.inBlock [] body; tail) ((names []).isSome && once)
      (inside ++ behind) := by
  have hOpen : W.Opens chained code [] (some []) := fun _ _ _ _ hOpened =>
    W.goes_open hOpens (hOpened.trans (congrArg Bool.toNat hCloses.symm))
  refine hOpen.arm (fun level hLevel => ?_) (hBody.inBlock []) hTail
  cases hLevel
  exact W.agrees_refl []

/-- The error of a try is a name of the block around it, whether it was there already or not. -/
theorem Tries.declares {added : List String → List String} (hTry : W.Tries first added)
    (hBlock : W.Fills [] body names inside) :
    W.Declares
      (do
        let reuse ← isDeclared "err"
        declare ["err"]
        emit (.tryOpen reuse)
        body
        emit .tryClose)
      (fun level => if (names []).isSome then some (added level) else none) (first ++ inside) := by
  intro s scope outer hScopes
  -- The closure is lowered in a scope of its own, so the scope around it has the error by then.
  obtain ⟨opened, hOpened, hThen⟩ := (endsIn_tryOpen hScopes).bind
    (f := fun _ => do body; emit .tryClose)
  obtain ⟨codes, hEnds, hGoes⟩ := hBlock opened
  obtain ⟨last, hLast, hThen'⟩ := hEnds.bind (f := fun _ => emit .tryClose)
  simp only [bind_assoc] at hThen
  have hClose : EndsIn (emit .tryClose) last () (("err" :: scope) :: outer) [.tryClose] :=
    (hLast.trans hOpened) ▸ endsIn_emit .tryClose
  refine ⟨_, _, hThen _ _ _ (hThen' _ _ _ hClose), fun level hAgrees => ⟨?_, ?_⟩⟩
  · intro levels later
    have hLine := (hTry scope level hAgrees).2 levels (inside ++ later)
    have hInside := hGoes [] (W.agrees_refl []) (added level :: levels) later
    rw [List.append_assoc]
    refine W.goes_append hLine ?_
    cases hNames : names [] with
    | none =>
        rw [hNames] at hInside
        exact W.goes_stop hInside
    | some after =>
        rw [hNames] at hInside
        exact W.goes_append hInside (W.goes_close (.inr rfl))
  · intro after hAfter
    split at hAfter
    · cases hAfter
      exact (hTry scope level hAgrees).1
    · cases hAfter

end Blocks

/-! ### Statements -/

section Statements

variable {token : Token} {name condition : Expr} {type : Option String}
  {body init update consequence alternative cleanup : Stmt} {catches rest : List Stmt}
  {names last : List String → Option (List String)} {once : Bool}
  {first inside between behind : List Due}

/-- A simple statement declares the names of its line. -/
theorem declares_simple {s : Stmt} (hShaped : s.Shaped) :
    W.Declares (do emit (← simple s)) (W.names (simpleCode s)) [] := by
  have hInner : (simpleCode s).isInner = true := by cases s <;> rfl
  rw [emit_simple_eq hShaped]
  exact declares_line hInner

/-- An import declares nothing. -/
theorem settles_importLines (paths : List String) : W.Settles false (importLines paths) true [] :=
  importLines_of (P := fun step => W.Settles false step true []) settles_pure
    (fun _ => settles_line rfl) (fun _ => settles_line rfl) (settles_line rfl) (settles_line rfl)
    Settles.before Settles.deeper paths

/-- A return declares nothing, whatever its frame adds to it. -/
theorem settles_lowerReturn {values : List Expr} (hShort : Expr.anyLongField values = false) :
    W.Settles false (lowerReturn values) true [] := by
  rw [lowerReturn_eq hShort]
  exact settles_frame fun _ => settles_line rfl

/-- A throw declares nothing. -/
theorem settles_lowerThrow {value : Expr} (hShort : value.hasLongField = false) :
    W.Settles false (lowerThrow value) true [] := by
  rw [lowerThrow_eq hShort]
  exact settles_frame fun _ => settles_line rfl

theorem settles_branch (hShaped : (Stmt.branch token).Shaped) :
    W.Settles false (lower (.branch token)) true [] := by
  rw [lower]
  rcases hShaped with hKind | hKind <;> rw [hKind] <;> exact settles_line rfl

/-- The arms of a conditional are blocks of their own. -/
theorem settles_conditional (chained : Bool)
    (hConsequence : W.Declares (lowerStatements consequence) names inside)
    (hAlternative : W.Settles true (lowerElse alternative) once behind) :
    W.Settles chained
      (do
        emit (.ifOpen chained condition.go)
        inBlock [] (lowerStatements consequence)
        lowerElse alternative)
      ((names []).isSome && once) (inside ++ behind) := hConsequence.arm rfl rfl hAlternative

/-- A function starts its block with its parameters. -/
theorem settles_func {params : List Expr} {types : List (Option String)} {result : Option String}
    {start : Option (List String)} (hName : name.isIdent = true)
    (hParams : ∀ param ∈ params, param.isIdent = true) (hBlock : body.isBlock = true)
    (hOpen : W.Opens false
      (.funcOpen (signatureText name params types (emittedResult result body))) first start)
    (hStart : ∀ level, start = some level → W.Agrees (params.map Expr.text) level)
    (hBody : W.Declares (lowerStatements body) names inside) :
    W.Settles false (lower (.func token name params types result body))
      (start.bind names).isSome (first ++ inside) := by
  have hInside (extra : Bool) : W.Fills (params.map Expr.text)
      (do
        inBlock (params.map Expr.text) (lowerStatements body)
        if extra then deeper (emit (.ret ["nil"]))) names inside :=
    (hBody.inBlock _).after (Settles.ite (settles_line rfl).deeper settles_pure)
  have hRest (frame : Frame) (extra : Bool) : W.Settles false
      (do
        emit (.funcOpen (signatureText name params types (emittedResult result body)))
        inFrame frame do
          inBlock (params.map Expr.text) (lowerStatements body)
          if extra then deeper (emit (.ret ["nil"]))
        emit .close) (start.bind names).isSome (first ++ inside) :=
    (hOpen.arm hStart ((hInside extra).inFrame frame) settles_close).congr (Bool.and_true _)
      (by rw [List.append_nil])
  rw [lower_func hName hParams hBlock]
  exact Settles.ite ((settles_record _).before (hRest _ _)) (hRest _ _)

/-- A loop keeps the names of its clauses to itself. -/
theorem settles_loop {start : Option (List String)} (hInit : init.Shaped)
    (hCondition : condition.hasLongField = false) (hUpdate : update.Shaped)
    (hBlock : body.isBlock = true)
    (hOpen : W.Opens false (.forOpen (loopText init condition update)) first start)
    (hStart : ∀ level, start = some level → level = [])
    (hBody : W.Declares (lowerStatements body) names inside) :
    W.Settles false (lower (.loop token init condition update body)) (start.bind names).isSome
      (first ++ inside) := by
  have hArm := hOpen.arm (fun level hLevel => hStart level hLevel ▸ W.agrees_refl [])
    (hBody.inBlock []) settles_close
  rw [lower_loop hInit hCondition hUpdate hBlock]
  exact Settles.inScope (hArm.congr (Bool.and_true _) (by rw [List.append_nil])) _

/-- The clauses of a try stand in the block of the test for an error. -/
theorem settles_chain (hClauses : W.Declares (lowerCatches false catches) names between) :
    W.Settles false
      (do
        emit .errCheck
        inBlock [] (lowerCatches false catches)
        emit .close) (names []).isSome between :=
  (hClauses.arm rfl rfl settles_close).congr (Bool.and_true _) (List.append_nil _)

/-- A try closes all its blocks before its cleanup, which stands in the block around. -/
theorem declares_tryCatch {clauses : List String → Option (List String)}
    {added : List String → List String} (hTry : W.Tries first added)
    (hBody : W.Declares (lowerStatements body) names inside)
    (hClauses : W.Declares (lowerCatches false catches) clauses between)
    (hNone : catches = [] → between = [] ∧ (clauses []).isSome = true)
    (hCleanup : W.Declares (lowerStatements cleanup) last behind) :
    W.Declares (lower (.tryCatch token body catches cleanup))
      (fun level => if (names []).isSome && (clauses []).isSome then last (added level) else none)
      (first ++ inside ++ (between ++ behind)) := by
  have hRet : W.Settles false (emit (.ret ["nil"])) true [] := settles_line rfl
  have hClosure := hBody.after hRet
  have hTried := hTry.declares ((hClosure.inBlock []).inFrame ⟨[errorType], false⟩)
  have hRest : W.Declares
      (do
        if catches.isEmpty then
          emit .discardErr
        else
          emit .errCheck
          inBlock [] (lowerCatches false catches)
          emit .close
        lowerStatements cleanup)
      (fun level => if (clauses []).isSome then last level else none) (between ++ behind) := by
    split
    next hEmpty =>
      obtain ⟨rfl, hSome⟩ := hNone (List.isEmpty_iff.mp hEmpty)
      have hDiscard : W.Settles false (emit .discardErr) true [] := settles_line rfl
      simp only [hSome, if_true]
      exact hDiscard.declares.seq hCleanup
    next =>
      have hBoth := ((settles_chain hClauses).declares.seq hCleanup).congr
        (fun level => if (clauses []).isSome then last level else none) fun level => by
          cases (clauses []).isSome <;> rfl
      simp only [bind_assoc] at hBoth
      exact hBoth
  have hAll := (hTried.seq hRest).congr
    (fun level => if (names []).isSome && (clauses []).isSome then last (added level) else none)
    fun level => by cases (names []).isSome <;> rfl
  simp only [bind_assoc] at hAll
  rw [lower]
  exact hAll

/-! ### Clauses -/

/-- The names of a block after the start of a catch clause in it. -/
def caught (W : Walk Due Blocks) (name : Expr) (type : Option String) (level : List String) :
    Option (List String) :=
  match caughtName name with
  | none => some level
  | some binding => if isTyped type then some level else W.names (.bindErr binding) level

/-- The names of a block after a catch clause whose body stands in it. -/
def clause (W : Walk Due Blocks) (name : Expr) (type : Option String)
    (names : List String → Option (List String)) (level : List String) : Option (List String) :=
  (W.caught name type level).bind names

/-- A clause declares the name it binds in its block. -/
theorem declares_bindCaught (hName : (name.isMissing || name.isIdent) = true)
    (type : Option String) : W.Declares (bindCaught name type) (W.caught name type) [] := by
  have hUse (binding : String) : W.Settles false (emit (.use binding)) true [] := settles_line rfl
  rw [bindCaught_eq hName]
  unfold caught
  cases caughtName name with
  | none => exact settles_pure.declares
  | some binding =>
      cases isTyped type with
      | true => exact (hUse binding).declares
      | false =>
          -- It does not matter which comes first, the line or its name.
          have hBind : W.Declares
              (do declare (Go.Code.bindErr binding).declares; emit (.bindErr binding))
              (W.names (.bindErr binding)) [] := declares_line rfl
          exact hBind.after (hUse binding)

/-- The body of a clause goes on in the block that has the name. -/
theorem declares_clause (hName : (name.isMissing || name.isIdent) = true) (type : Option String)
    (hBody : W.Declares (lowerStatements body) names inside) :
    W.Declares (do bindCaught name type; lowerStatements body) (W.clause name type names) inside :=
  (declares_bindCaught hName type).seq hBody

/-- The warning about dropped clauses is no line. -/
theorem settles_dropped (rest : List Stmt) (line : Nat) :
    W.Settles false (if !rest.isEmpty then record (.droppedCatches rest.length line) else pure ())
      true [] := Settles.ite (settles_record _) settles_pure

/-- A clause with a type is an arm with a type test, and the other clauses follow it. -/
theorem settles_typedClause (token : Token) (chained : Bool)
    (hName : (name.isMissing || name.isIdent) = true)
    (hTyped : isTyped type = true) (hBody : W.Declares (lowerStatements body) names inside)
    (hRest : W.Settles true (lowerCatches true rest) once behind) :
    W.Settles chained (lowerCatches chained (.catchClause token name type body :: rest))
      ((W.clause name type names []).isSome && once) (inside ++ behind) := by
  rw [lowerCatches_typed chained hName hTyped]
  exact (declares_clause hName type hBody).arm rfl rfl hRest

/-- A catch-all behind other clauses is the last arm, and the clauses behind it are dropped. -/
theorem settles_lastClause (token : Token) (rest : List Stmt)
    (hName : (name.isMissing || name.isIdent) = true)
    (hCatchAll : isTyped type = false) (hBody : W.Declares (lowerStatements body) names inside) :
    W.Settles true (lowerCatches true (.catchClause token name type body :: rest))
      (W.clause name type names []).isSome inside := by
  have hTail := settles_close.after (W := W) (settles_dropped rest token.pos.line)
  rw [lowerCatches_catchAll true hCatchAll]
  exact ((declares_clause hName type hBody).arm rfl rfl hTail).congr (Bool.and_true _)
    (List.append_nil inside)

/-- A catch-all that comes first stands in the block of the test for an error. -/
theorem declares_onlyClause (token : Token) (rest : List Stmt)
    (hName : (name.isMissing || name.isIdent) = true)
    (hCatchAll : isTyped type = false) (hBody : W.Declares (lowerStatements body) names inside) :
    W.Declares (lowerCatches false (.catchClause token name type body :: rest))
      (W.clause name type names) inside := by
  have hAll := (declares_clause hName type hBody).after (settles_dropped rest token.pos.line)
  simp only [bind_assoc] at hAll
  rw [lowerCatches_catchAll false hCatchAll]
  exact hAll

end Statements

end Walk

end Lower

end TryGo
