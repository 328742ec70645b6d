import TryGo.Proofs.Parse.Keep

/-! Only one kind of report can fail to be worded. All other reports show tokens and kinds, whose
texts are at hand, so a reader that makes no definition never cuts a parse off. -/
namespace TryGo.Parse

/-- A step that does not cut the parse off because a text has no rendering. -/
class Worded {α : Type} (step : ParseM α) : Prop where
  halts : ∀ s error s', step s ≠ .error (.unrenderable error) s'

/-- Whether a halt has to do with something else than a text without a rendering. -/
def Halt.IsWorded (halt : Halt) : Prop := ∀ error, halt ≠ .unrenderable error

instance : Allows Halt.IsWorded .outOfFuel := ⟨nofun⟩

section Steps

variable {α β : Type}

instance (step : ParseM α) [hReads : Reads Halt.IsWorded step] : Worded step :=
  ⟨fun _ error _ hRun => hReads.allowed hRun nofun error rfl⟩

instance : Worded takeTrailing := ⟨nofun⟩

instance (comments : List Stmt) : Worded (leaveTrailing comments) := ⟨nofun⟩

theorem Worded.bind {step : ParseM α} {next : α → ParseM β} (hStep : Worded step)
    (hNext : ∀ a, Worded (next a)) : Worded (step >>= next) := by
  refine ⟨fun s error s' hRun => ?_⟩
  rcases bind_error hRun with hFirst | ⟨a, middle, -, hThen⟩
  · exact hStep.halts s error s' hFirst
  · exact (hNext a).halts middle error s' hThen

theorem Worded.attempt {step : ParseM α} (hStep : Worded step) : Worded (attempt step) := by
  refine ⟨fun s error s' hRun => ?_⟩
  unfold Parse.attempt at hRun
  cases hFirst : step s with
  | ok a middle =>
      rw [hFirst] at hRun
      cases hRun
  | error halt middle =>
      rw [hFirst] at hRun
      cases halt with
      | unrenderable other => exact hStep.halts s other middle hFirst
      | abandoned | outOfFuel => cases hRun

end Steps

end TryGo.Parse
