import TryGo.Parse.Cursor
import TryGo.Proofs.Phrase.Expr

/-! How the elementary steps of the parser run. There are two ways to reason about a run.

Forwards, the unread tokens are known, and each step is an equation: `State.on` puts a state
before given tokens, and the equations say where the step leads.

Backwards, a run has ended in a value, and its steps are recovered one by one. A run that
added no report took the intended branch at every step, because reports are never taken
back: `Grows` says so of a step, and instances say so of every step the parser is built
from. -/
namespace TryGo.Parse

/-- A state with other unread tokens. -/
def State.on (s : State) (tokens : List Token) : State :=
  { s with cursor := { s.cursor with rest := tokens } }

namespace State

variable (s : State) (token : Token) (tokens others : List Token)

@[simp] theorem on_on : (s.on tokens).on others = s.on others := rfl

@[simp] theorem rest_on : (s.on tokens).cursor.rest = tokens := rfl

@[simp] theorem reports_on : (s.on tokens).reports = s.reports := rfl

@[simp] theorem trailing_on : (s.on tokens).trailing = s.trailing := rfl

@[simp] theorem cur_on_cons : (s.on (token :: tokens)).cursor.cur = token := rfl

@[simp] theorem peek_on_cons_cons (next : Token) :
    (s.on (token :: next :: tokens)).cursor.peek = next := rfl

@[simp] theorem kind_peek_on_cons :
    (s.on (token :: tokens)).cursor.peek.kind = nextKind tokens := by
  cases tokens <;> rfl

@[simp] theorem kind_cur_on : (s.on tokens).cursor.cur.kind = nextKind tokens := by
  cases tokens <;> rfl

end State

section Forwards

variable {α β : Type} (s : State) (token : Token) (tokens : List Token)

/-- The second of two steps runs unless the first fails. -/
theorem bind_run (x : ParseM α) (f : α → ParseM β) :
    (x >>= f) s = match x s with
      | .ok a s' => f a s'
      | .error halt s' => .error halt s' := by
  change EStateM.bind x f s = _
  unfold EStateM.bind
  cases x s <;> rfl

@[simp] theorem pure_run (a : α) : (pure a : ParseM α) s = .ok a s := rfl

@[simp] theorem cur_bind (f : Token → ParseM β) : (cur >>= f) s = f s.cursor.cur s := rfl

@[simp] theorem peek_bind (f : Token → ParseM β) : (peek >>= f) s = f s.cursor.peek s := rfl

@[simp] theorem peekIs_bind (kind : TokenKind) (f : Bool → ParseM β) :
    (peekIs kind >>= f) s = f (s.cursor.peek.kind == kind) s := rfl

@[simp] theorem curIdent_bind (f : Expr → ParseM β) :
    (curIdent >>= f) (s.on (token :: tokens)) =
      f (.ident token token.literal) (s.on (token :: tokens)) := rfl

@[simp] theorem tokensLeft_bind (f : Nat → ParseM β) :
    (tokensLeft >>= f) s = f s.cursor.rest.length s := rfl

@[simp] theorem advance_bind (f : Unit → ParseM β) :
    (advance >>= f) (s.on (token :: tokens)) = f () (s.on tokens) := rfl

theorem bind_of_ok {x : ParseM α} {f : α → ParseM β} {s s' : State} {a : α}
    (hRun : x s = .ok a s') : (x >>= f) s = f a s' := by
  rw [bind_run, hRun]

theorem bind_of_error {step : ParseM α} {next : α → ParseM β} {s s' : State}
    {halt : Halt} (hRun : step s = .error halt s') : (step >>= next) s = .error halt s' := by
  rw [bind_run, hRun]

/-- A token that is accepted is taken. -/
theorem accept_bind {kind : TokenKind} (f : Bool → ParseM β) (hKind : nextKind tokens = kind) :
    (accept kind >>= f) (s.on (token :: tokens)) = f true (s.on tokens) := by
  have hPeek : ((s.on (token :: tokens)).cursor.peek.kind == kind) = true := by
    simp [hKind]
  have hAccept : accept kind (s.on (token :: tokens)) = .ok true (s.on tokens) := by
    unfold accept
    simp only [peek_bind, hPeek, if_true, advance_bind, pure_run]
  exact bind_of_ok hAccept

/-- A token that is expected and there is taken. -/
theorem expect_bind {kind : TokenKind} (f : Unit → ParseM β) (hKind : nextKind tokens = kind) :
    (expect kind >>= f) (s.on (token :: tokens)) = f () (s.on tokens) := by
  have hExpect : expect kind (s.on (token :: tokens)) = .ok () (s.on tokens) := by
    unfold expect
    rw [accept_bind _ _ _ _ hKind]
    rfl
  exact bind_of_ok hExpect

end Forwards

/-- The state in which a step ends, with a value or without. -/
def final {α : Type} : EStateM.Result Halt State α → State
  | .ok _ s => s
  | .error _ s => s

section Final

variable {α β : Type} (s : State)

/-- An attempt ends where the step ends that is attempted. -/
theorem final_attempt (step : ParseM α) : final (attempt step s) = final (step s) := by
  unfold attempt
  cases step s with
  | ok a s' => rfl
  | error halt s' => cases halt <;> rfl

/-- What goes through from one step to the next holds before and after both. -/
theorem final_bind {step : ParseM α} {next : α → ParseM β} {R : State → State → Prop}
    (hTrans : ∀ {s middle s'}, R s middle → R middle s' → R s s') (hStep : R s (final (step s)))
    (hNext : ∀ a middle, R middle (final (next a middle))) :
    R s (final ((step >>= next) s)) := by
  rw [bind_run]
  cases hRun : step s with
  | ok a middle =>
      rw [hRun] at hStep
      exact hTrans hStep (hNext a middle)
  | error halt middle =>
      rw [hRun] at hStep
      exact hStep

end Final

section Tests

/-- A run that passes a test of its value and its last state ends in a value. -/
theorem exists_run_of_test {α : Type} (step : ParseM α) (s : State) (test : α → State → Bool)
    (hTest : (match step s with
      | .ok a s' => test a s'
      | .error _ _ => false) = true) : ∃ a s', step s = .ok a s' ∧ test a s' = true := by
  cases hRun : step s with
  | ok a s' =>
      rw [hRun] at hTest
      exact ⟨a, s', rfl, hTest⟩
  | error halt s' =>
      rw [hRun] at hTest
      cases hTest

/-- A result that passes a test is there. -/
theorem exists_ok_of_test {ε α : Type} (result : Except ε α) (test : α → Bool)
    (hTest : result.toOption.any test = true) : ∃ a, result = .ok a ∧ test a = true := by
  cases result with
  | ok a => exact ⟨a, rfl, hTest⟩
  | error => cases hTest

end Tests

/-! ### Steps that are put together -/

/-- Whether a predicate allows a halt. -/
class Allows (p : Halt → Prop) (halt : Halt) : Prop where
  holds : p halt

/-- A step that is put together from the elementary steps, but for the two that have to do with
the waiting comments. Unless it is abandoned, it is stopped only by halts that `p` allows. -/
class inductive Reads (p : Halt → Prop) : {α : Type} → ParseM α → Prop where
  | look {α : Type} (answer : State → α) : Reads p (fun s => .ok (answer s) s)
  | abandon {α : Type} : Reads p (abandon : ParseM α)
  | halt {α : Type} {halt : Halt} (hAllowed : p halt) : Reads p (throw halt : ParseM α)
  | advance : Reads p advance
  | report (cause : Cause) : Reads p (report cause)
  | skipComments : Reads p skipComments
  | attempt {α : Type} {step : ParseM α} (hStep : Reads p step) : Reads p (attempt step)
  | bind {α β : Type} {step : ParseM α} {next : α → ParseM β} (hStep : Reads p step)
      (hNext : ∀ a, Reads p (next a)) : Reads p (step >>= next)

namespace Halt

def IsAny (_ : Halt) : Prop := True

end Halt

section Reading

variable {α β : Type} {p : Halt → Prop}

instance (halt : Halt) : Allows Halt.IsAny halt := ⟨trivial⟩

instance (a : α) : Reads p (pure a) := .look fun _ => a

instance : Reads p cur := .look fun s => s.cursor.cur

instance : Reads p peek := .look fun s => s.cursor.peek

instance (kind : TokenKind) : Reads p (peekIs kind) := .look fun s => s.cursor.peek.kind == kind

instance : Reads p tokensLeft := .look fun s => s.cursor.rest.length

instance : Reads p advance := .advance

instance (cause : Cause) : Reads p (report cause) := .report cause

instance : Reads p skipComments := .skipComments

instance (halt : Halt) [hAllows : Allows p halt] : Reads p (throw halt : ParseM α) :=
  .halt hAllows.holds

instance : Reads p (abandon : ParseM α) := .abandon

instance reads_outOfFuel [hAllows : Allows p .outOfFuel] : Reads p (outOfFuel : ParseM α) :=
  .halt hAllows.holds

instance (step : ParseM α) [hStep : Reads p step] : Reads p (attempt step) := .attempt hStep

instance (step : ParseM α) (next : α → ParseM β) [hStep : Reads p step]
    [hNext : ∀ a, Reads p (next a)] : Reads p (step >>= next) := .bind hStep hNext

/-- The first of two steps may be inferred. -/
theorem Reads.after {step : ParseM α} {next : α → ParseM β} [hStep : Reads p step]
    (hNext : ∀ a, Reads p (next a)) : Reads p (step >>= next) := .bind hStep hNext

instance (condition : Prop) [Decidable condition] (x y : ParseM α) [Reads p x] [Reads p y] :
    Reads p (if condition then x else y) := by
  split <;> infer_instance

instance (kind : TokenKind) : Reads p (accept kind) := by
  unfold accept
  infer_instance

instance (kind : TokenKind) : Reads p (expect kind) := by
  unfold expect
  infer_instance

instance : Reads p curIdent := by
  unfold curIdent
  infer_instance

variable {step : ParseM α}

/-- What holds between the states before and after the elementary steps, and goes through from one
step to the next, holds before and after every step that is put together from them. -/
theorem Reads.relates (hReads : Reads p step) {R : State → State → Prop} (hSame : ∀ s, R s s)
    (hTrans : ∀ {s middle s'}, R s middle → R middle s' → R s s')
    (hAdvance : ∀ s, R s (final (Parse.advance s)))
    (hReport : ∀ cause s, R s (final (Parse.report cause s)))
    (hComments : ∀ s, R s (final (Parse.skipComments s))) (s : State) :
    R s (final (step s)) := by
  induction hReads generalizing s with
  | look | abandon | halt => exact hSame s
  | advance => exact hAdvance s
  | report cause => exact hReport cause s
  | skipComments => exact hComments s
  | @attempt α step _ ih =>
      rw [final_attempt]
      exact ih s
  | @bind α β step next _ _ ih ihNext => exact final_bind s hTrans (ih s) ihNext

/-- No elementary step takes back a report. -/
theorem Reads.growing (hReads : Reads p step) (s : State) :
    s.reports <:+ (final (step s)).reports :=
  hReads.relates (R := fun s s' => s.reports <:+ s'.reports) (fun _ => List.suffix_rfl)
    List.IsSuffix.trans (fun _ => List.suffix_rfl) (fun _ _ => List.suffix_cons _ _)
    (fun _ => List.suffix_rfl) s

end Reading

/-- A step that takes back no report. -/
class Grows {α : Type} (step : ParseM α) : Prop where
  suffix : ∀ s, s.reports <:+ (final (step s)).reports

section Growth

variable {α β : Type}

instance (priority := low) (step : ParseM α) [hReads : Reads Halt.IsAny step] : Grows step :=
  ⟨hReads.growing⟩

instance : Grows takeTrailing := ⟨fun _ => List.suffix_rfl⟩

instance (comments : List Stmt) : Grows (leaveTrailing comments) := ⟨fun _ => List.suffix_rfl⟩

/-- Steps in a row drop no report if neither does. -/
theorem Grows.bind {x : ParseM α} {f : α → ParseM β} (hFirst : Grows x)
    (hThen : ∀ a, Grows (f a)) : Grows (x >>= f) :=
  ⟨fun s => final_bind (R := fun s s' => s.reports <:+ s'.reports) s List.IsSuffix.trans
    (hFirst.suffix s) fun a => (hThen a).suffix⟩

instance (x : ParseM α) (f : α → ParseM β) [hFirst : Grows x] [hThen : ∀ a, Grows (f a)] :
    Grows (x >>= f) := hFirst.bind hThen

instance (condition : Prop) [Decidable condition] (x y : ParseM α) [Grows x] [Grows y] :
    Grows (if condition then x else y) := by
  split <;> infer_instance

instance (x : ParseM α) [hStep : Grows x] : Grows (attempt x) :=
  ⟨fun s => by rw [final_attempt]; exact hStep.suffix s⟩

end Growth

section Backwards

variable {α β : Type} {s s' : State}

/-- Two steps in a row give a value only if both do. -/
theorem bind_ok {x : ParseM α} {f : α → ParseM β} {b : β}
    (hRun : (x >>= f) s = .ok b s') : ∃ a middle, x s = .ok a middle ∧ f a middle = .ok b s' := by
  rw [bind_run] at hRun
  cases hFirst : x s with
  | ok a middle =>
      rw [hFirst] at hRun
      exact ⟨a, middle, rfl, hRun⟩
  | error halt middle =>
      rw [hFirst] at hRun
      cases hRun

/-- Where a run ends without a value, one of its steps does. -/
theorem bind_error {step : ParseM α} {next : α → ParseM β} {halt : Halt}
    (hRun : (step >>= next) s = .error halt s') :
    step s = .error halt s' ∨ ∃ a middle, step s = .ok a middle ∧ next a middle = .error halt s' := by
  rw [bind_run] at hRun
  cases hStep : step s with
  | ok a middle =>
      rw [hStep] at hRun
      exact .inr ⟨a, middle, rfl, hRun⟩
  | error stop middle =>
      rw [hStep] at hRun
      cases hRun
      exact .inl rfl

/-- If nothing was reported in a whole run, then nothing was reported in its first part. -/
theorem bind_quiet_of {x : ParseM α} {f : α → ParseM β} [hFirst : Grows x] {b : β}
    (hRun : (x >>= f) s = .ok b s') (hQuiet : s'.reports = s.reports)
    (hThen : ∀ a, Grows (f a)) :
    ∃ a middle, x s = .ok a middle ∧ middle.reports = s.reports ∧ f a middle = .ok b s' := by
  obtain ⟨a, middle, hX, hF⟩ := bind_ok hRun
  have hBefore := hFirst.suffix s
  have hAfter := (hThen a).suffix middle
  rw [hX] at hBefore
  rw [hF] at hAfter
  refine ⟨a, middle, hX, ?_, hF⟩
  have hLength : middle.reports.length ≤ s.reports.length := by
    rw [← hQuiet]
    exact hAfter.length_le
  exact (hBefore.eq_of_length_le hLength).symm

/-- Two steps in a row report nothing only if neither does. -/
theorem bind_quiet {x : ParseM α} {f : α → ParseM β} [Grows x] [hThen : ∀ a, Grows (f a)] {b : β}
    (hRun : (x >>= f) s = .ok b s') (hQuiet : s'.reports = s.reports) :
    ∃ a middle, x s = .ok a middle ∧ middle.reports = s.reports ∧ f a middle = .ok b s' :=
  bind_quiet_of hRun hQuiet hThen

variable {kind : TokenKind} {token : Token} {tokens : List Token}

/-- A kind that is found next is that of a token, unless it is the end mark. -/
theorem exists_mark_of_nextKind (hKind : nextKind tokens = kind) (hEof : kind ≠ .eof) :
    ∃ (mark : Mark kind) (more : List Token), tokens = mark.val :: more := by
  cases tokens with
  | nil => exact absurd hKind.symm hEof
  | cons first more => exact ⟨⟨first, hKind⟩, more, rfl⟩

/-- Accepting a token without a report means that it was there. -/
theorem accept_quiet {closed : Bool} (hRun : accept kind (s.on (token :: tokens)) = .ok closed s')
    (hQuiet : s'.reports = s.reports) (hEof : kind ≠ .eof) :
    closed = true ∧ ∃ (mark : Mark kind) (more : List Token),
      tokens = mark.val :: more ∧ s' = s.on (mark.val :: more) := by
  unfold accept at hRun
  rw [peek_bind, State.kind_peek_on_cons] at hRun
  by_cases hKind : nextKind tokens = kind
  · rw [if_pos (by simpa using hKind), advance_bind, pure_run] at hRun
    cases hRun
    obtain ⟨mark, more, rfl⟩ := exists_mark_of_nextKind hKind hEof
    exact ⟨rfl, mark, more, rfl, rfl⟩
  · rw [if_neg (by simpa using hKind)] at hRun
    obtain ⟨_, middle, hReport, hPure⟩ := bind_ok hRun
    cases hReport
    cases hPure
    exact absurd hQuiet (by simp)

/-- Expecting a token succeeds only if it is there. -/
theorem expect_ok {u : Unit} (hRun : expect kind (s.on (token :: tokens)) = .ok u s')
    (hEof : kind ≠ .eof) :
    ∃ (mark : Mark kind) (more : List Token),
      tokens = mark.val :: more ∧ s' = s.on (mark.val :: more) := by
  unfold expect at hRun
  obtain ⟨closed, middle, hAccept, hRest⟩ := bind_ok hRun
  cases closed with
  | false => cases hRest
  | true =>
      cases hRest
      unfold accept at hAccept
      rw [peek_bind, State.kind_peek_on_cons] at hAccept
      by_cases hKind : nextKind tokens = kind
      · rw [if_pos (by simpa using hKind), advance_bind, pure_run] at hAccept
        cases hAccept
        obtain ⟨mark, more, rfl⟩ := exists_mark_of_nextKind hKind hEof
        exact ⟨mark, more, rfl, rfl⟩
      · rw [if_neg (by simpa using hKind)] at hAccept
        obtain ⟨_, _, hReport, hPure⟩ := bind_ok hAccept
        cases hPure

/-- At the end of the source no token can be expected. -/
theorem expect_nil {u : Unit} (hEof : kind ≠ .eof) : expect kind (s.on []) ≠ .ok u s' := by
  intro hRun
  unfold expect accept at hRun
  have hPeek : ¬ ((s.on []).cursor.peek.kind == kind) = true := by
    simpa using fun hKind => hEof hKind.symm
  obtain ⟨closed, middle, hAccept, hRest⟩ := bind_ok hRun
  rw [peek_bind, if_neg hPeek] at hAccept
  cases hAccept
  cases hRest

/-- Only an allowed halt stops a step that is put together and is not abandoned. -/
theorem Reads.allowed {p : Halt → Prop} {step : ParseM α} (hReads : Reads p step) {s s' : State}
    {halt : Halt} (hRun : step s = .error halt s') (hGoesOn : halt ≠ .abandoned) : p halt := by
  induction hReads generalizing s s' halt with
  | look | advance | report | skipComments => cases hRun
  | abandon =>
      cases hRun
      exact absurd rfl hGoesOn
  | halt hAllowed =>
      cases hRun
      exact hAllowed
  | @attempt α step _ ih =>
      unfold Parse.attempt at hRun
      cases hStep : step s with
      | ok a middle =>
          rw [hStep] at hRun
          cases hRun
      | error stop middle =>
          rw [hStep] at hRun
          cases stop <;> cases hRun <;> exact ih hStep hGoesOn
  | bind _ _ ih ihNext =>
      rcases bind_error hRun with hStep | ⟨a, middle, -, hNext⟩
      · exact ih hStep hGoesOn
      · exact ihNext a hNext hGoesOn

end Backwards

/-- A step that takes back no report and is abandoned only with one. -/
class Explains {α : Type} (step : ParseM α) : Prop extends Grows step where
  reports_ne : ∀ s s', step s = .error .abandoned s' → s'.reports ≠ s.reports

section Explanations

variable {α β : Type} {s s' : State}

/-- What has been reported stays, so a report shows in the end. -/
theorem reports_ne_of_suffix {before middle after : List Diagnostic}
    (hFirst : before <:+ middle) (hThen : middle <:+ after) (hNe : after ≠ middle ∨ middle ≠ before) :
    after ≠ before := by
  intro hEq
  subst hEq
  have hSame : after = middle := hFirst.eq_of_length_le hThen.length_le
  rcases hNe with hNe | hNe
  · exact hNe hSame
  · exact hNe hSame.symm

/-- If the first part of a run explains itself, then so does the whole, provided that the
second part does after every value that the first part can give without a report. -/
theorem Explains.bind_of_quiet {x : ParseM α} {f : α → ParseM β} [hFirst : Explains x]
    [hThenGrows : ∀ a, Grows (f a)]
    (hThen : ∀ s a s', x s = .ok a s' → s'.reports = s.reports → Explains (f a)) :
    Explains (x >>= f) := by
  refine { toGrows := inferInstance, reports_ne := fun s s' hRun => ?_ }
  have hBefore := hFirst.suffix s
  rw [bind_run] at hRun
  cases hX : x s with
  | ok a middle =>
      rw [hX] at hRun hBefore
      change f a middle = _ at hRun
      have hAfter := (hThenGrows a).suffix middle
      rw [hRun] at hAfter
      by_cases hQuiet : middle.reports = s.reports
      · have hLoud := (hThen s a middle hX hQuiet).reports_ne middle s' hRun
        exact reports_ne_of_suffix hBefore hAfter (Or.inl hLoud)
      · exact reports_ne_of_suffix hBefore hAfter (Or.inr hQuiet)
  | error halt middle =>
      rw [hX] at hRun
      cases hRun
      exact hFirst.reports_ne s _ hX

/-- Steps in a row explain their failure if both do. -/
theorem Explains.bind {x : ParseM α} {f : α → ParseM β} (hFirst : Explains x)
    (hThen : ∀ a, Explains (f a)) : Explains (x >>= f) :=
  bind_of_quiet fun _ a _ _ _ => hThen a

instance (x : ParseM α) (f : α → ParseM β) [hFirst : Explains x]
    [hThen : ∀ a, Explains (f a)] : Explains (x >>= f) := hFirst.bind hThen

/-- A step that is never abandoned explains itself. -/
theorem Explains.of_ne_abandoned {x : ParseM α} [Grows x]
    (hNever : ∀ s s', x s ≠ .error .abandoned s') : Explains x :=
  { toGrows := inferInstance, reports_ne := fun s s' hRun => absurd hRun (hNever s s') }

instance (a : α) : Explains (pure a) := .of_ne_abandoned nofun

instance : Explains cur := .of_ne_abandoned nofun

instance : Explains peek := .of_ne_abandoned nofun

instance : Explains advance := .of_ne_abandoned nofun

instance (kind : TokenKind) : Explains (peekIs kind) := .of_ne_abandoned nofun

instance : Explains tokensLeft := .of_ne_abandoned nofun

instance (cause : Cause) : Explains (report cause) := .of_ne_abandoned nofun

instance explains_outOfFuel : Explains (outOfFuel : ParseM α) := .of_ne_abandoned nofun

instance : Explains skipComments := .of_ne_abandoned nofun

instance : Explains takeTrailing := .of_ne_abandoned nofun

instance (comments : List Stmt) : Explains (leaveTrailing comments) := .of_ne_abandoned nofun

instance (condition : Prop) [Decidable condition] (x y : ParseM α) [Explains x] [Explains y] :
    Explains (if condition then x else y) := by
  split <;> infer_instance

instance (kind : TokenKind) : Explains (accept kind) := by
  unfold accept
  infer_instance

instance : Explains curIdent := by
  unfold curIdent
  infer_instance

instance (x : ParseM α) [Grows x] : Explains (attempt x) := by
  refine .of_ne_abandoned fun s s' hRun => ?_
  unfold attempt at hRun
  cases hX : x s with
  | ok a middle =>
      rw [hX] at hRun
      cases hRun
  | error halt middle =>
      rw [hX] at hRun
      cases halt <;> cases hRun

/-- Giving up after a report is explained by the report. -/
instance (cause : Cause) : Explains (report cause >>= fun _ => (abandon : ParseM α)) where
  reports_ne s s' hRun := by
    cases hRun
    exact List.cons_ne_self _ _

/-- Accepting a token without a report finds it. -/
theorem accept_true_of_quiet {kind : TokenKind} {closed : Bool}
    (hRun : accept kind s = .ok closed s') (hQuiet : s'.reports = s.reports) : closed = true := by
  unfold accept at hRun
  rw [peek_bind] at hRun
  split at hRun
  · cases hRun
    rfl
  · cases hRun
    exact absurd hQuiet (List.cons_ne_self _ _)

instance (kind : TokenKind) : Explains (expect kind) := by
  refine Explains.bind_of_quiet fun s closed s' hAccept hQuiet => ?_
  rw [accept_true_of_quiet hAccept hQuiet, if_pos rfl]
  infer_instance

/-- An attempt that reported nothing was a success. -/
theorem attempt_quiet {x : ParseM α} [hExplains : Explains x] {a : Option α}
    (hRun : attempt x s = .ok a s') (hQuiet : s'.reports = s.reports) :
    ∃ b, a = some b ∧ x s = .ok b s' := by
  unfold attempt at hRun
  cases hX : x s with
  | ok b middle =>
      rw [hX] at hRun
      cases hRun
      exact ⟨b, rfl, rfl⟩
  | error halt middle =>
      rw [hX] at hRun
      cases halt with
      | abandoned =>
          cases hRun
          exact absurd hQuiet (hExplains.reports_ne s _ hX)
      | unrenderable | outOfFuel => cases hRun

end Explanations

end TryGo.Parse
