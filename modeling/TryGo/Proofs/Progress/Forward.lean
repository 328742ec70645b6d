import TryGo.Proofs.Parse.Keep
import TryGo.Proofs.Token.Place

/-! The parser only moves forward. Every reader is built from a few elementary steps, and each
of these leaves a rest of the unread tokens, keeps the reports that were made, and reports only
at the current token. So reports are made at places that do not go back in the text. -/
namespace TryGo.Parse

/-! ### Readers are built from elementary steps -/

/-- A step that is put together from the elementary steps. -/
class inductive Built : {α : Type} → ParseM α → Prop where
  | look {α : Type} (answer : State → α) : Built (fun s => .ok (answer s) s)
  | halt {α : Type} (halt : Halt) : Built (throw halt : ParseM α)
  | advance : Built advance
  | report (cause : Cause) : Built (report cause)
  | skipComments : Built skipComments
  | takeTrailing : Built takeTrailing
  | leaveTrailing (comments : List Stmt) : Built (leaveTrailing comments)
  | attempt {α : Type} {step : ParseM α} (hStep : Built step) : Built (attempt step)
  | bind {α β : Type} {step : ParseM α} {next : α → ParseM β} (hStep : Built step)
      (hNext : ∀ a, Built (next a)) : Built (step >>= next)

section Steps

variable {α β : Type}

theorem Reads.built {p : Halt → Prop} {step : ParseM α} (hReads : Reads p step) : Built step := by
  induction hReads with
  | look answer => exact .look answer
  | abandon => exact .halt .abandoned
  | @halt _ halt => exact .halt halt
  | advance => exact .advance
  | report cause => exact .report cause
  | skipComments => exact .skipComments
  | attempt _ ih => exact .attempt ih
  | bind _ _ ih ihNext => exact .bind ih ihNext

instance (step : ParseM α) [hReads : Reads Halt.IsAny step] : Built step := hReads.built

instance : Built takeTrailing := .takeTrailing

instance (comments : List Stmt) : Built (leaveTrailing comments) := .leaveTrailing comments

instance (step : ParseM α) [hStep : Built step] : Built (attempt step) := .attempt hStep

instance (step : ParseM α) (next : α → ParseM β) [hStep : Built step]
    [hNext : ∀ a, Built (next a)] : Built (step >>= next) := .bind hStep hNext

instance (condition : Prop) [Decidable condition] (x y : ParseM α) [Built x] [Built y] :
    Built (if condition then x else y) := by
  split <;> infer_instance

/-- The first of two steps may be inferred. -/
theorem Built.after {step : ParseM α} {next : α → ParseM β} [hStep : Built step]
    (hNext : ∀ a, Built (next a)) : Built (step >>= next) := .bind hStep hNext

theorem built_outOfFuel : Built (outOfFuel : ParseM α) := .halt .outOfFuel

end Steps

section Statements

structure BuiltStmt (fuel : Nat) : Prop where
  statement : Built (statement fuel)
  construct : Built (construct fuel)
  block : Built (block fuel)
  blockItems : Built (blockItems fuel)
  ifStmt : Built (ifStmt fuel)
  forStmt : Built (forStmt fuel)
  loopClauses : ∀ token init, Built (loopClauses fuel token init)
  functionStmt : Built (functionStmt fuel)
  tryStmt : Built (tryStmt fuel)
  catchClauses : Built (catchClauses fuel)
  catchClause : Built (catchClause fuel)

theorem builtStmt_zero : BuiltStmt 0 := by
  constructor
  case loopClauses => exact fun _ _ => built_outOfFuel
  all_goals exact built_outOfFuel

theorem builtStmt_succ {fuel : Nat} (h : BuiltStmt fuel) : BuiltStmt (fuel + 1) := by
  obtain ⟨_, _, _, _, _, _, _, _, _, _, _⟩ := h
  constructor
  case statement =>
    rw [statement_succ]
    infer_instance
  case construct => exact .after fun token => by split <;> infer_instance
  case block =>
    rw [block]
    infer_instance
  case blockItems =>
    rw [blockItems]
    infer_instance
  case ifStmt =>
    rw [ifStmt]
    refine .after fun _ => .after fun _ => .after fun _ => .after fun _ => .after fun _ =>
      .after fun more => ?_
    split <;> infer_instance
  case forStmt =>
    have hAfter : ∀ token init opened, Built (afterInit fuel token init opened) := by
      intro token init opened
      unfold afterInit
      split <;> infer_instance
    rw [forStmt_succ]
    refine .after fun token => .after fun opened => ?_
    split
    · infer_instance
    · exact .after fun _ => .after fun next => inferInstance
  case loopClauses =>
    intro token init
    rw [loopClauses_succ]
    exact .after fun _ => .after fun _ => .after fun _ => .after fun _ => inferInstance
  case functionStmt =>
    rw [functionStmt]
    exact .after fun _ => .after fun _ => .after fun _ => .after fun _ => .after fun _ =>
      .after fun _ => .after fun _ => inferInstance
  case tryStmt =>
    rw [tryStmt]
    exact .after fun _ => .after fun _ => .after fun _ => .after fun _ => inferInstance
  case catchClauses =>
    rw [catchClauses]
    infer_instance
  case catchClause =>
    rw [catchClause]
    refine .after fun token => .after fun binds => ?_
    split
    · refine .after fun _ => .after fun _ => .after fun name => .after fun closed => ?_
      split
      · infer_instance
      · exact .after fun _ => .after fun type => inferInstance
    · infer_instance

theorem builtStmt (fuel : Nat) : BuiltStmt fuel := by
  induction fuel with
  | zero => exact builtStmt_zero
  | succ fuel ih => exact builtStmt_succ ih

instance (fuel : Nat) : Built (statement fuel) := (builtStmt fuel).statement

theorem built_programItems : (fuel : Nat) → Built (programItems fuel)
  | 0 => built_outOfFuel
  | fuel + 1 => by
      have := built_programItems fuel
      rw [programItems]
      infer_instance

instance (fuel : Nat) : Built (programItems fuel) := built_programItems fuel

instance : Built readProgram := by
  unfold readProgram
  infer_instance

end Statements

/-! ### Elementary steps move forward -/

namespace Cursor

/-- The offsets of the unread tokens and of the end mark. -/
def offsets (cursor : Cursor) : List Nat :=
  (cursor.rest ++ [Token.eof cursor.endPos]).map fun token => token.pos.offset

theorem head_offsets (cursor : Cursor) :
    ∃ others, cursor.offsets = cursor.cur.pos.offset :: others := by
  obtain ⟨rest, endPos⟩ := cursor
  cases rest with
  | nil => exact ⟨[], rfl⟩
  | cons token rest => exact ⟨_, rfl⟩

end Cursor

/-- Whether the unread tokens stand in order, and the reports were made in order and not behind
the current token. The reports are kept newest first. -/
structure State.Ordered (s : State) : Prop where
  ahead : s.cursor.offsets.Pairwise (· ≤ ·)
  behind : (s.cursor.cur.pos.offset :: s.reports.map fun report => report.pos.offset).Pairwise
    (· ≥ ·)

/-- What a state has to do with an earlier one. -/
structure Later (s s' : State) : Prop where
  rest : s'.cursor.rest <:+ s.cursor.rest
  endPos : s'.cursor.endPos = s.cursor.endPos
  reports : s.reports <:+ s'.reports
  ordered : s.Ordered → s'.Ordered

namespace Later

variable {s middle s' : State}

theorem trans (hFirst : Later s middle) (hThen : Later middle s') : Later s s' where
  rest := hThen.rest.trans hFirst.rest
  endPos := hThen.endPos.trans hFirst.endPos
  reports := hFirst.reports.trans hThen.reports
  ordered hOrdered := hThen.ordered (hFirst.ordered hOrdered)

/-- Whatever stays among the unread tokens is not in front of the current one. -/
theorem of_rest (hRest : s'.cursor.rest <:+ s.cursor.rest)
    (hEnd : s'.cursor.endPos = s.cursor.endPos) (hReports : s'.reports = s.reports) :
    Later s s' := by
  refine ⟨hRest, hEnd, hReports ▸ List.suffix_rfl, fun hOrdered => ?_⟩
  have hOffsets : s'.cursor.offsets <:+ s.cursor.offsets := by
    obtain ⟨front, hFront⟩ := hRest
    refine ⟨front.map fun token => token.pos.offset, ?_⟩
    rw [Cursor.offsets, Cursor.offsets, ← List.map_append, hEnd, ← List.append_assoc, hFront]
  obtain ⟨others, hHead⟩ := s.cursor.head_offsets
  obtain ⟨others', hHead'⟩ := s'.cursor.head_offsets
  have hAhead := hOrdered.ahead
  have hCur : s.cursor.cur.pos.offset ≤ s'.cursor.cur.pos.offset := by
    have hMem : s'.cursor.cur.pos.offset ∈ s.cursor.offsets :=
      hOffsets.subset (by rw [hHead']; exact List.mem_cons_self)
    rw [hHead, List.pairwise_cons] at hAhead
    rw [hHead, List.mem_cons] at hMem
    rcases hMem with hSame | hMem
    · exact hSame.ge
    · exact hAhead.1 _ hMem
  have hBehind := List.pairwise_cons.mp hOrdered.behind
  refine ⟨hOrdered.ahead.sublist hOffsets.sublist, ?_⟩
  rw [hReports]
  exact List.pairwise_cons.mpr
    ⟨fun offset hMem => (hBehind.1 offset hMem).trans hCur, hBehind.2⟩

/-- A report is made at the current token. -/
theorem of_report (s : State) (cause : Cause) :
    Later s { s with reports := ⟨s.cursor.cur.pos, cause⟩ :: s.reports } := by
  refine ⟨List.suffix_rfl, rfl, List.suffix_cons _ _, fun hOrdered => ⟨hOrdered.ahead, ?_⟩⟩
  have hBehind := List.pairwise_cons.mp hOrdered.behind
  refine List.pairwise_cons.mpr ⟨fun offset hMem => ?_, hOrdered.behind⟩
  rcases List.mem_cons.mp hMem with rfl | hMem
  · exact le_rfl
  · exact hBehind.1 offset hMem

end Later

/-- Every step of the parser leads to a later state, whether it ends in a value or not. -/
theorem Built.later {α : Type} {step : ParseM α} (hBuilt : Built step) (s : State) :
    Later s (final (step s)) := by
  induction hBuilt generalizing s with
  | look | halt | takeTrailing | leaveTrailing => exact .of_rest List.suffix_rfl rfl rfl
  | advance => exact .of_rest (List.tail_suffix _) rfl rfl
  | report cause => exact .of_report s cause
  | skipComments => exact .of_rest (List.drop_suffix _ _) rfl rfl
  | @attempt α step _ ih =>
      rw [final_attempt]
      exact ih s
  | @bind α β step next _ _ ih ihNext => exact final_bind s Later.trans (ih s) ihNext

/-- A step that took some tokens and changed nothing else stands at the last one it took. -/
theorem Built.exists_front {α : Type} {step : ParseM α} (hBuilt : Built step) {s : State} {a : α}
    {taken more : List Token} {last : Token} (hTokens : s.cursor.rest = taken ++ more)
    (hRun : step s = .ok a (s.on (last :: more))) : ∃ front, taken = front ++ [last] := by
  have hLater := hBuilt.later s
  rw [hRun] at hLater
  obtain ⟨front, hFront⟩ : last :: more <:+ taken ++ more := hTokens ▸ hLater.rest
  exact ⟨front, List.append_cancel_right (by
    rw [← hFront, List.append_assoc, List.singleton_append])⟩

end TryGo.Parse
