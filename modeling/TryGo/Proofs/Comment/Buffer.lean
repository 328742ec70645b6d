import TryGo.Proofs.Parse.Open

/-! The comments that wait behind a try. They wait only until the statement list goes on in which
the try stands: whenever a list takes its next statement, nothing waits.

To say so, the step is left open by which a list takes its next statement. With a step that does
anything else while something waits the readers still are the parser. -/
namespace TryGo.Parse

/-- Parses from a cursor, where every list of statements takes them by `take`. -/
def readFromBy (take : ParseM (Option Stmt) → ParseM (Option Stmt)) (cursor : Cursor) : Reading :=
  match readProgramBy ⟨take, simpleStmt⟩ (State.init cursor) with
  | .ok program s => ⟨.ok program, s.reports.reverse⟩
  | .error halt s => ⟨.error halt, s.reports.reverse⟩

theorem readFromBy_id (cursor : Cursor) : readFromBy id cursor = readFrom cursor := by
  have hParser : readProgramBy ⟨id, simpleStmt⟩ = readProgram := readProgramBy_parserHoles
  rw [readFromBy, hParser]
  rfl

/-! ### Nothing waits when a statement is taken -/

/-- Takes a statement if nothing waits, and does something else otherwise. -/
def onlyClear (other take : ParseM (Option Stmt)) : ParseM (Option Stmt) := fun s =>
  if s.trailing.isEmpty then take s else other s

/-- The steps of the parser, where a list takes a statement only if nothing waits. -/
def Holes.cleared (other : ParseM (Option Stmt)) : Holes := ⟨onlyClear other, simpleStmt⟩

instance : Keeps Holes.parser.simple := inferInstanceAs (Keeps simpleStmt)

instance : Keeps (attempt Holes.parser.simple) := inferInstanceAs (Keeps (attempt simpleStmt))

/-- Where nothing waits, two steps are the same and leave nothing waiting. -/
def Clear {α : Type} (step watched : ParseM α) : Prop :=
  ∀ s, s.trailing = [] → watched s = step s ∧ (final (step s)).trailing = []

/-- Where nothing waits, two steps are the same. Something may wait in the end, but not behind a
step that failed. -/
def Leaves {α : Type} (step watched : ParseM α) : Prop :=
  ∀ s, s.trailing = [] →
    watched s = step s ∧ ∀ halt s', step s = .error halt s' → s'.trailing = []

section Rules

variable {α β : Type} {step watched : ParseM α} {next goesOn : α → ParseM β}

/-- A step behind which nothing waits leaves nothing behind a failure either. -/
theorem Clear.leaves (hStep : Clear step watched) : Leaves step watched := by
  intro s hNone
  obtain ⟨hSame, hAfter⟩ := hStep s hNone
  refine ⟨hSame, fun halt s' hRun => ?_⟩
  rw [hRun] at hAfter
  exact hAfter

/-- A step that does not touch what was left behind is clear. -/
theorem clear_of_keeps (step : ParseM α) [hKeeps : Keeps step] : Clear step step :=
  fun s hNone => ⟨rfl, (hKeeps.trailing s).trans hNone⟩

theorem leaves_of_keeps (step : ParseM α) [Keeps step] : Leaves step step :=
  (clear_of_keeps step).leaves

/-- Two steps in a row are clear if both are. -/
theorem Clear.bind (hStep : Clear step watched) (hNext : ∀ a, Clear (next a) (goesOn a)) :
    Clear (step >>= next) (watched >>= goesOn) := by
  intro s hNone
  obtain ⟨hSame, hAfter⟩ := hStep s hNone
  rw [bind_run, bind_run, hSame]
  cases hRun : step s with
  | ok a middle => exact hNext a middle (by rw [hRun] at hAfter; exact hAfter)
  | error halt middle => exact ⟨rfl, by rw [hRun] at hAfter; exact hAfter⟩

/-- A step that leaves something behind may come last. -/
theorem Clear.bindLeaves (hStep : Clear step watched) (hNext : ∀ a, Leaves (next a) (goesOn a)) :
    Leaves (step >>= next) (watched >>= goesOn) := by
  intro s hNone
  obtain ⟨hSame, hAfter⟩ := hStep s hNone
  rw [bind_run, bind_run, hSame]
  cases hRun : step s with
  | ok a middle => exact hNext a middle (by rw [hRun] at hAfter; exact hAfter)
  | error halt middle =>
      refine ⟨rfl, fun halt' s' hRun' => ?_⟩
      rw [hRun] at hAfter
      cases hRun'
      exact hAfter

/-- A step that cannot fail may come behind one that leaves something waiting. -/
theorem Leaves.bind (hStep : Leaves step watched) (hNext : ∀ a s, ∃ b s', next a s = .ok b s') :
    Leaves (step >>= next) (watched >>= next) := by
  intro s hNone
  obtain ⟨hSame, hFailed⟩ := hStep s hNone
  rw [bind_run, bind_run, hSame]
  cases hRun : step s with
  | ok a middle =>
      obtain ⟨b, s', hRun'⟩ := hNext a middle
      refine ⟨rfl, fun halt s'' hError => ?_⟩
      cases hRun'.symm.trans hError
  | error halt middle =>
      refine ⟨rfl, fun halt' s' hError => ?_⟩
      cases hError
      exact hFailed halt middle hRun

/-- Taking what waits clears it. -/
theorem Leaves.take {next goesOn : α → List Stmt → ParseM β} (hStep : Leaves step watched)
    (hNext : ∀ a waiting, Clear (next a waiting) (goesOn a waiting)) :
    Clear (step >>= fun a => takeTrailing >>= next a)
      (watched >>= fun a => takeTrailing >>= goesOn a) := by
  intro s hNone
  obtain ⟨hSame, hFailed⟩ := hStep s hNone
  rw [bind_run, bind_run, hSame]
  cases hRun : step s with
  | ok a middle => exact hNext a middle.trailing { middle with trailing := [] } rfl
  | error halt middle => exact ⟨rfl, hFailed halt middle hRun⟩

/-- A choice is clear if both of its arms are. -/
theorem Clear.ite {step' watched' : ParseM α} (condition : Bool) (hThen : Clear step watched)
    (hElse : Clear step' watched') :
    Clear (if condition then step else step') (if condition then watched else watched') := by
  cases condition with
  | true => exact hThen
  | false => exact hElse

/-- A choice leaves what its arms leave. -/
theorem Leaves.ite {step' watched' : ParseM α} (condition : Bool) (hThen : Leaves step watched)
    (hElse : Leaves step' watched') :
    Leaves (if condition then step else step') (if condition then watched else watched') := by
  cases condition with
  | true => exact hThen
  | false => exact hElse

/-- An attempt is clear if the step is. -/
theorem Clear.attempt (hStep : Clear step watched) : Clear (attempt step) (attempt watched) := by
  intro s hNone
  obtain ⟨hSame, hAfter⟩ := hStep s hNone
  unfold Parse.attempt
  rw [hSame]
  cases hRun : step s with
  | ok a next =>
      rw [hRun] at hAfter
      exact ⟨rfl, hAfter⟩
  | error halt next =>
      rw [hRun] at hAfter
      cases halt <;> exact ⟨rfl, hAfter⟩

/-- An attempt leaves what the step leaves. -/
theorem Leaves.attempt (hStep : Leaves step watched) :
    Leaves (attempt step) (attempt watched) := by
  intro s hNone
  obtain ⟨hSame, hFailed⟩ := hStep s hNone
  unfold Parse.attempt
  rw [hSame]
  cases hRun : step s with
  | ok a next => exact ⟨rfl, fun halt s' hError => by cases hError⟩
  | error halt next =>
      refine ⟨rfl, fun halt' s' hError => ?_⟩
      cases halt <;> cases hError <;> exact hFailed _ _ hRun

/-- A reader that starts with nothing left behind cannot tell that it is watched. -/
theorem Leaves.onlyClear {step watched : ParseM (Option Stmt)} (other : ParseM (Option Stmt))
    (hStep : Leaves step watched) : Leaves step (onlyClear other watched) := by
  intro s hNone
  obtain ⟨hSame, hFailed⟩ := hStep s hNone
  refine ⟨?_, hFailed⟩
  rw [Parse.onlyClear, hNone]
  exact hSame

end Rules

/-- Going on behind a statement cannot fail. -/
theorem afterSemicolon_ok (s : State) (result : Option Stmt) :
    ∃ a s', (skipSemicolon >>= fun _ => (return result : ParseM (Option Stmt))) s = .ok a s' := by
  rw [skipSemicolon, bind_assoc, peekIs_bind]
  split <;> exact ⟨_, _, rfl⟩

/-- The readers do the same as others where nothing waits, and only a statement may leave
something waiting. -/
structure Readers.Agree (r watched : Readers) : Prop where
  statement : Leaves r.statement watched.statement
  construct : Leaves r.construct watched.construct
  block : Clear r.block watched.block
  blockItems : Clear r.blockItems watched.blockItems
  ifStmt : Clear r.ifStmt watched.ifStmt
  forStmt : Clear r.forStmt watched.forStmt
  loopClauses : ∀ token init, Clear (r.loopClauses token init) (watched.loopClauses token init)
  functionStmt : Clear r.functionStmt watched.functionStmt
  tryStmt : Leaves r.tryStmt watched.tryStmt
  catchClauses : Clear r.catchClauses watched.catchClauses
  catchClause : Clear r.catchClause watched.catchClause

namespace Readers

variable {r watched : Readers} (other : ParseM (Option Stmt))

theorem agree_spent : spent.Agree spent where
  statement := leaves_of_keeps outOfFuel
  construct := leaves_of_keeps outOfFuel
  block := clear_of_keeps outOfFuel
  blockItems := clear_of_keeps outOfFuel
  ifStmt := clear_of_keeps outOfFuel
  forStmt := clear_of_keeps outOfFuel
  loopClauses _ _ := clear_of_keeps outOfFuel
  functionStmt := clear_of_keeps outOfFuel
  tryStmt := leaves_of_keeps outOfFuel
  catchClauses := clear_of_keeps outOfFuel
  catchClause := clear_of_keeps outOfFuel

/-- A block that is read last. -/
theorem Agree.withBlock (h : r.Agree watched) (f : Stmt → Stmt) :
    Clear (r.block >>= fun body => return f body) (watched.block >>= fun body => return f body) :=
  h.block.bind fun _ => clear_of_keeps _

/-- A statement leaves behind what its construct does. -/
theorem Agree.next_statement (h : r.Agree watched) :
    Leaves (r.next .parser).statement (watched.next (.cleared other)).statement := by
  refine (clear_of_keeps _).bindLeaves fun token => .ite _ (leaves_of_keeps _) ?_
  exact h.construct.attempt.bind fun result s => afterSemicolon_ok s result

/-- Of all constructs only a try leaves something behind. -/
theorem Agree.next_construct (h : r.Agree watched) :
    Leaves (r.next .parser).construct (watched.next (.cleared other)).construct := by
  refine (clear_of_keeps _).bindLeaves fun token => ?_
  generalize token.kind = kind
  cases kind with
  | kwFunc => exact h.functionStmt.leaves
  | kwIf => exact h.ifStmt.leaves
  | kwFor => exact h.forStmt.leaves
  | kwTry => exact h.tryStmt
  | lbrace => exact h.block.leaves
  | _ => exact leaves_of_keeps _

/-- Each statement of a block takes what the one before has left. -/
theorem Agree.next_blockItems (h : r.Agree watched) :
    Clear (r.next .parser).blockItems (watched.next (.cleared other)).blockItems := by
  refine (clear_of_keeps _).bind fun token => .ite _ (clear_of_keeps _) ?_
  refine .ite _ (clear_of_keeps _) ?_
  refine (h.statement.onlyClear other).take fun stmt comments => ?_
  exact (clear_of_keeps _).bind fun _ => h.blockItems.bind fun _ => clear_of_keeps _

theorem Agree.next_ifStmt (h : r.Agree watched) :
    Clear (r.next .parser).ifStmt (watched.next (.cleared other)).ifStmt := by
  refine (clear_of_keeps _).bind fun token => (clear_of_keeps _).bind fun _ => ?_
  refine (clear_of_keeps _).bind fun condition => (clear_of_keeps _).bind fun _ => ?_
  refine h.block.bind fun consequence => (clear_of_keeps _).bind fun hasElse => ?_
  refine .ite _ ?_ (clear_of_keeps _)
  refine (clear_of_keeps _).bind fun _ => (clear_of_keeps _).bind fun isChain => ?_
  refine .ite _ ?_ ?_
  · exact (clear_of_keeps _).bind fun _ => h.ifStmt.bind fun _ => clear_of_keeps _
  · exact (clear_of_keeps _).bind fun _ => h.withBlock _

theorem Agree.next_forStmt (h : r.Agree watched) :
    Clear (r.next .parser).forStmt (watched.next (.cleared other)).forStmt := by
  refine (clear_of_keeps _).bind fun token => (clear_of_keeps _).bind fun isEndless => ?_
  refine .ite _ ((clear_of_keeps _).bind fun _ => h.withBlock _) ?_
  refine (clear_of_keeps _).bind fun _ => (clear_of_keeps _).bind fun next => ?_
  refine .ite _ (h.loopClauses _ _) ?_
  refine (clear_of_keeps _).bind fun init => (clear_of_keeps _).bind fun isWhile => ?_
  split
  · exact (clear_of_keeps _).bind fun _ => h.withBlock _
  · exact (clear_of_keeps _).bind fun _ => h.loopClauses _ _

theorem Agree.next_loopClauses (h : r.Agree watched) (token : Token) (init : Stmt) :
    Clear ((r.next .parser).loopClauses token init)
      ((watched.next (.cleared other)).loopClauses token init) := by
  refine (clear_of_keeps _).bind fun _ => (clear_of_keeps _).bind fun condition => ?_
  refine (clear_of_keeps _).bind fun _ => (clear_of_keeps _).bind fun next => ?_
  refine .ite _ (h.withBlock _) ?_
  refine (clear_of_keeps _).bind fun update => (clear_of_keeps _).bind fun _ => h.withBlock _

theorem Agree.next_functionStmt (h : r.Agree watched) :
    Clear (r.next .parser).functionStmt (watched.next (.cleared other)).functionStmt := by
  refine (clear_of_keeps _).bind fun token => (clear_of_keeps _).bind fun _ => ?_
  refine (clear_of_keeps _).bind fun name => (clear_of_keeps _).bind fun _ => ?_
  refine (clear_of_keeps _).bind fun params => (clear_of_keeps _).bind fun result => ?_
  exact (clear_of_keeps _).bind fun _ => h.withBlock _

/-- A try leaves the comments behind its last clause. -/
theorem Agree.next_tryStmt (h : r.Agree watched) :
    Leaves (r.next .parser).tryStmt (watched.next (.cleared other)).tryStmt := by
  refine (clear_of_keeps _).bindLeaves fun token => (clear_of_keeps _).bindLeaves fun _ => ?_
  refine h.block.bindLeaves fun body => h.catchClauses.bindLeaves fun clauses => ?_
  refine (clear_of_keeps _).bindLeaves fun hasFinally => .ite _ ?_ ?_
  · exact ((clear_of_keeps _).bind fun _ => (clear_of_keeps _).bind fun _ => h.withBlock _).leaves
  · exact fun s _ => ⟨rfl, fun halt s' hError => by cases hError⟩

/-- The comments between clauses are handed on, not left. -/
theorem Agree.next_catchClauses (h : r.Agree watched) :
    Clear (r.next .parser).catchClauses (watched.next (.cleared other)).catchClauses := by
  refine (clear_of_keeps _).bind fun comments => (clear_of_keeps _).bind fun hasCatch => ?_
  refine .ite _ ((clear_of_keeps _).bind fun _ => ?_) (clear_of_keeps _)
  exact h.catchClause.attempt.bind fun clause => h.catchClauses.bind fun _ => clear_of_keeps _

theorem Agree.next_catchClause (h : r.Agree watched) :
    Clear (r.next .parser).catchClause (watched.next (.cleared other)).catchClause := by
  refine (clear_of_keeps _).bind fun token => (clear_of_keeps _).bind fun isNamed => ?_
  refine .ite _ ?_ ((clear_of_keeps _).bind fun _ => h.withBlock _)
  refine (clear_of_keeps _).bind fun _ => (clear_of_keeps _).bind fun _ => ?_
  refine (clear_of_keeps _).bind fun name => (clear_of_keeps _).bind fun isClosed => ?_
  refine .ite _ ?_ ?_
  · exact (clear_of_keeps _).bind fun _ => (clear_of_keeps _).bind fun _ => h.withBlock _
  · refine (clear_of_keeps _).bind fun _ => (clear_of_keeps _).bind fun type => ?_
    exact (clear_of_keeps _).bind fun _ => (clear_of_keeps _).bind fun _ => h.withBlock _

/-- One more unit of fuel keeps the agreement. -/
theorem Agree.next (h : r.Agree watched) :
    (r.next .parser).Agree (watched.next (.cleared other)) where
  statement := h.next_statement other
  construct := h.next_construct other
  block := (clear_of_keeps _).bind fun _ => (clear_of_keeps _).bind fun _ =>
    h.blockItems.bind fun _ => clear_of_keeps _
  blockItems := h.next_blockItems other
  ifStmt := h.next_ifStmt other
  forStmt := h.next_forStmt other
  loopClauses := h.next_loopClauses other
  functionStmt := h.next_functionStmt other
  tryStmt := h.next_tryStmt other
  catchClauses := h.next_catchClauses other
  catchClause := h.next_catchClause other

end Readers

/-- No fuel tells the readers apart from those that are watched. -/
theorem agree_readers (other : ParseM (Option Stmt)) (fuel : Nat) :
    (readers .parser fuel).Agree (readers (.cleared other) fuel) := by
  induction fuel with
  | zero => exact Readers.agree_spent
  | succ fuel ih => exact ih.next other

theorem clear_programItemsBy (other : ParseM (Option Stmt)) (fuel : Nat) :
    Clear (programItemsBy .parser fuel) (programItemsBy (.cleared other) fuel) := by
  induction fuel with
  | zero => exact clear_of_keeps outOfFuel
  | succ fuel ih =>
      refine (clear_of_keeps _).bind fun token => .ite _ (clear_of_keeps _) ?_
      refine (clear_of_keeps _).bind fun left => ?_
      refine ((agree_readers other _).statement.onlyClear other).take fun stmt comments => ?_
      exact (clear_of_keeps _).bind fun _ => ih.bind fun _ => clear_of_keeps _

/-- Whatever a list of statements would do while something waits, it never does. -/
theorem readFromBy_onlyClear (other : ParseM (Option Stmt)) (cursor : Cursor) :
    readFromBy (onlyClear other) cursor = readFrom cursor := by
  have hSame : readProgramBy ⟨onlyClear other, simpleStmt⟩ (State.init cursor) =
      readProgramBy ⟨id, simpleStmt⟩ (State.init cursor) := by
    refine (Clear.bind (clear_of_keeps _) fun token => ?_) _ rfl |>.1
    exact (clear_of_keeps _).bind fun left =>
      (clear_programItemsBy other _).bind fun items => clear_of_keeps _
  rw [← readFromBy_id, readFromBy, readFromBy, hSame]

end TryGo.Parse
