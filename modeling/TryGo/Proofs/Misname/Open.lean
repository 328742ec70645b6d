import TryGo.Proofs.Parse.Open
import TryGo.Proofs.Misname.Quiet
import TryGo.Proofs.Progress.Forward

/-! Where the parser comes to read a simple statement. To say so, the reader of simple statements is
left open. With one that halts in certain states the readers are the parser up to the first such
state, and they come to a halt exactly if the parser comes there. -/
namespace TryGo.Parse

/-! ### Halting in certain states -/

/-- Reads a simple statement, but halts in the states of which `p` holds. The halt is one that no
reader makes. -/
def haltWhere (p : State → Bool) : ParseM Stmt := fun s =>
  if p s then .error .outOfFuel s else simpleStmt s

/-- The steps of the parser, where the reader of simple statements halts in certain states. -/
def Holes.halting (p : State → Bool) : Holes := ⟨id, haltWhere p⟩

/-- Whether the parse of a source comes to read a simple statement in a certain state, and this is
the first such state of which `p` holds: the parse halts there when it is made to. -/
def ComesTo (source : String) (p : State → Bool) (s : State) : Prop :=
  p s = true
    ∧ readProgramBy (.halting p) (State.init (.ofLexer (.ofString source))) = .error .outOfFuel s

/-- A step and its watched form. They do the same, or else the watched one halts in a later state of
which `p` holds, and then the step itself fails for good. The watched one never fails for want of a
text. -/
class Watched {α : Type} (p : State → Bool) (step watched : ParseM α) : Prop where
  same : ∀ s, watched s = step s
    ∨ (∃ s', p s' = true ∧ Later s s' ∧ watched s = .error .outOfFuel s')
      ∧ ∃ halt s', halt ≠ .abandoned ∧ step s = .error halt s'
  worded : Worded watched
  built : Built step

section Rules

variable {α β : Type} {p : State → Bool} {step watched : ParseM α} {next goesOn : α → ParseM β}

/-- A step that reads no simple statement does not change. -/
instance (step : ParseM α) [hReads : Reads Halt.IsWorded step] : Watched p step step :=
  ⟨fun _ => .inl rfl, inferInstance, hReads.built⟩

instance : Watched p takeTrailing takeTrailing :=
  ⟨fun _ => .inl rfl, inferInstance, inferInstance⟩

instance (comments : List Stmt) : Watched p (leaveTrailing comments) (leaveTrailing comments) :=
  ⟨fun _ => .inl rfl, inferInstance, inferInstance⟩

theorem Watched.bind (hStep : Watched p step watched)
    (hNext : ∀ a, Watched p (next a) (goesOn a)) :
    Watched p (step >>= next) (watched >>= goesOn) := by
  refine ⟨fun s => ?_, hStep.worded.bind fun a => (hNext a).worded,
    hStep.built.bind fun a => (hNext a).built⟩
  rcases hStep.same s with hSame | ⟨⟨s', hHolds, hLater, hHalt⟩, halt, s'', hKind, hFails⟩
  · rw [bind_run, bind_run, hSame]
    cases hRun : step s with
    | ok a middle =>
        have hFirst : Later s middle := by
          have hLater := hStep.built.later s
          rwa [hRun] at hLater
        rcases (hNext a).same middle with hSame | ⟨⟨s', hHolds, hLater, hHalt⟩, hFails⟩
        · exact .inl hSame
        · exact .inr ⟨⟨s', hHolds, hFirst.trans hLater, hHalt⟩, hFails⟩
    | error halt middle => exact .inl rfl
  · exact .inr ⟨⟨s', hHolds, hLater, bind_of_error hHalt⟩, halt, s'', hKind, bind_of_error hFails⟩

instance [hStep : Watched p step watched] [hNext : ∀ a, Watched p (next a) (goesOn a)] :
    Watched p (step >>= next) (watched >>= goesOn) := hStep.bind hNext

/-- The first of two steps may be inferred. -/
theorem Watched.after [hStep : Watched p step watched]
    (hNext : ∀ a, Watched p (next a) (goesOn a)) :
    Watched p (step >>= next) (watched >>= goesOn) := hStep.bind hNext

instance (condition : Prop) [Decidable condition] (x y x' y' : ParseM α) [Watched p x x']
    [Watched p y y'] :
    Watched p (if condition then x else y) (if condition then x' else y') := by
  split <;> assumption

instance [hStep : Watched p step watched] : Watched p (attempt step) (attempt watched) := by
  refine ⟨fun s => ?_, hStep.worded.attempt, hStep.built.attempt⟩
  unfold attempt
  rcases hStep.same s with hSame | ⟨⟨s', hHolds, hLater, hHalt⟩, halt, s'', hKind, hFails⟩
  · rw [hSame]
    exact .inl rfl
  · rw [hHalt, hFails]
    refine .inr ⟨⟨s', hHolds, hLater, rfl⟩, halt, s'', hKind, ?_⟩
    cases halt with
    | abandoned => exact absurd rfl hKind
    | unrenderable | outOfFuel => rfl

end Rules

structure Readers.WatchedBy (p : State → Bool) (r watched : Readers) : Prop where
  statement : Watched p r.statement watched.statement
  construct : Watched p r.construct watched.construct
  block : Watched p r.block watched.block
  blockItems : Watched p r.blockItems watched.blockItems
  ifStmt : Watched p r.ifStmt watched.ifStmt
  forStmt : Watched p r.forStmt watched.forStmt
  loopClauses : ∀ token init, Watched p (r.loopClauses token init) (watched.loopClauses token init)
  functionStmt : Watched p r.functionStmt watched.functionStmt
  tryStmt : Watched p r.tryStmt watched.tryStmt
  catchClauses : Watched p r.catchClauses watched.catchClauses
  catchClause : Watched p r.catchClause watched.catchClause

namespace Readers

variable {p : State → Bool} {r watched : Readers}

theorem watchedBy_spent : spent.WatchedBy p spent where
  statement := inferInstanceAs (Watched p outOfFuel outOfFuel)
  construct := inferInstanceAs (Watched p outOfFuel outOfFuel)
  block := inferInstanceAs (Watched p outOfFuel outOfFuel)
  blockItems := inferInstanceAs (Watched p outOfFuel outOfFuel)
  ifStmt := inferInstanceAs (Watched p outOfFuel outOfFuel)
  forStmt := inferInstanceAs (Watched p outOfFuel outOfFuel)
  loopClauses _ _ := inferInstanceAs (Watched p outOfFuel outOfFuel)
  functionStmt := inferInstanceAs (Watched p outOfFuel outOfFuel)
  tryStmt := inferInstanceAs (Watched p outOfFuel outOfFuel)
  catchClauses := inferInstanceAs (Watched p outOfFuel outOfFuel)
  catchClause := inferInstanceAs (Watched p outOfFuel outOfFuel)

/-- Readers with more fuel are watched if the readers that they call are, and the reader of simple
statements. -/
theorem WatchedBy.next (h : r.WatchedBy p watched)
    (hSimple : Watched p Holes.parser.simple (Holes.halting p).simple) :
    (r.next .parser).WatchedBy p (watched.next (.halting p)) := by
  obtain ⟨_, _, _, _, _, _, _, _, _, _, _⟩ := h
  constructor
  case statement =>
    simp only [Readers.next]
    infer_instance
  case construct =>
    refine .after fun token => ?_
    generalize token.kind = kind
    cases kind <;> first | exact hSimple | infer_instance
  case block =>
    simp only [Readers.next]
    infer_instance
  case blockItems =>
    simp only [Readers.next, Holes.parser, Holes.halting, id]
    infer_instance
  case ifStmt =>
    refine .after fun _ => .after fun _ => .after fun _ => .after fun _ => .after fun _ =>
      .after fun more => ?_
    split <;> infer_instance
  case forStmt =>
    refine .after fun token => .after fun endless => ?_
    split
    · infer_instance
    · refine .after fun _ => .after fun next => ?_
      split
      · infer_instance
      · refine .after fun init => .after fun opened => ?_
        split <;> infer_instance
  case loopClauses =>
    refine fun token init => .after fun _ => .after fun condition => .after fun _ =>
      .after fun next => ?_
    split <;> infer_instance
  case functionStmt =>
    exact .after fun _ => .after fun _ => .after fun _ => .after fun _ => .after fun _ =>
      .after fun _ => .after fun _ => inferInstance
  case tryStmt =>
    refine .after fun _ => .after fun _ => .after fun _ => .after fun clauses =>
      .after fun last => ?_
    split <;> infer_instance
  case catchClauses =>
    refine .after fun _ => .after fun more => ?_
    split <;> infer_instance
  case catchClause =>
    refine .after fun _ => .after fun named => ?_
    split
    · refine .after fun _ => .after fun _ => .after fun _ => .after fun closed => ?_
      split <;> infer_instance
    · infer_instance

end Readers

section Program

variable {p : State → Bool} (hSimple : Watched p Holes.parser.simple (Holes.halting p).simple)

include hSimple

theorem watchedBy_readers (fuel : Nat) :
    (readers .parser fuel).WatchedBy p (readers (.halting p) fuel) := by
  induction fuel with
  | zero => exact Readers.watchedBy_spent
  | succ fuel ih => exact ih.next hSimple

theorem watched_programItemsBy (fuel : Nat) :
    Watched p (programItemsBy .parser fuel) (programItemsBy (.halting p) fuel) := by
  induction fuel with
  | zero => exact inferInstanceAs (Watched p outOfFuel outOfFuel)
  | succ fuel ih =>
      refine .after fun token => ?_
      split
      · infer_instance
      · refine .after fun left => ?_
        have hStatement : Watched p (Holes.parser.take (readers .parser (stmtFuel left)).statement)
            ((Holes.halting p).take (readers (.halting p) (stmtFuel left)).statement) :=
          (watchedBy_readers hSimple (stmtFuel left)).statement
        infer_instance

/-- The whole parse is watched if the reader of simple statements is. -/
theorem watched_readProgramBy :
    Watched p (readProgramBy .parser) (readProgramBy (.halting p)) := by
  refine .after fun token => .after fun left => ?_
  have hItems := watched_programItemsBy hSimple (left + 1)
  infer_instance

end Program

end TryGo.Parse
