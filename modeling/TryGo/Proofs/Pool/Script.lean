import Mathlib.Logic.Basic

/-! Scripts of actions on a shared state. Between two actions others can act as well. What a script
can be relied on for is therefore stated against what the others may do meanwhile. -/
namespace TryGo.Build

/-- Actions on a state, one after the other. What an action finds decides how the script goes
on. -/
inductive Script (σ α : Type) where
  | done (result : α)
  | act (move : σ → σ) (next : σ → Script σ α)

namespace Script

variable {σ α β : Type}

def bind : Script σ α → (α → Script σ β) → Script σ β
  | .done result, after => after result
  | .act move next, after => .act move fun s => (next s).bind after

instance : Monad (Script σ) where
  pure := .done
  bind := .bind

def action (step : σ → α × σ) : Script σ α := .act (fun s => (step s).2) fun s => .done (step s).1

/-- Carries out a script without others between its actions. -/
def run : Script σ α → σ → α × σ
  | .done result, s => (result, s)
  | .act move next, s => (next s).run (move s)

@[simp]
theorem run_pure (result : α) (s : σ) : (pure result : Script σ α).run s = (result, s) := rfl

@[simp]
theorem run_action (step : σ → α × σ) (s : σ) : (action step).run s = step s := rfl

@[simp]
theorem run_bind (script : Script σ α) (after : α → Script σ β) (s : σ) :
    (script >>= after).run s = (after (script.run s).1).run (script.run s).2 := by
  induction script generalizing s with
  | done result => rfl
  | act move next ih => exact ih s (move s)

/-- Whether a script, started in a state, does only what `guar` allows and ends in a state that
`post` allows, as long as the others do only what `rely` allows. -/
def Assured (rely guar : σ → σ → Prop) (post : α → σ → Prop) : Script σ α → σ → Prop
  | .done result, s => ∀ s', rely s s' → post result s'
  | .act move next, s =>
      ∀ s', rely s s' → guar s' (move s') ∧ (next s').Assured rely guar post (move s')

section Assured

variable {rely guar rely' guar' : σ → σ → Prop} {post : α → σ → Prop} {post' : β → σ → Prop}
  {script : Script σ α} {s s' : σ}

theorem assured_pure {result : α} (hPost : ∀ s', rely s s' → post result s') :
    (pure result : Script σ α).Assured rely guar post s := hPost

theorem assured_action {step : σ → α × σ}
    (hStep : ∀ s', rely s s' → guar s' (step s').2 ∧
      ∀ s'', rely (step s').2 s'' → post (step s').1 s'') :
    (action step).Assured rely guar post s := hStep

/-- What others do before the next action makes no difference. -/
theorem Assured.after (hTrans : ∀ {a b c}, rely a b → rely b c → rely a c)
    (hScript : script.Assured rely guar post s) (hRely : rely s s') :
    script.Assured rely guar post s' := by
  cases script with
  | done result => exact fun s'' hLater => hScript s'' (hTrans hRely hLater)
  | act move next => exact fun s'' hLater => hScript s'' (hTrans hRely hLater)

theorem Assured.bind (hRefl : ∀ s, rely s s) {after : α → Script σ β}
    (hScript : script.Assured rely guar post s)
    (hAfter : ∀ result s', post result s' → (after result).Assured rely guar post' s') :
    (script >>= after).Assured rely guar post' s := by
  induction script generalizing s with
  | done result => exact hAfter result s (hScript s (hRefl s))
  | act move next ih =>
    intro s' hRely
    obtain ⟨hGuar, hNext⟩ := hScript s' hRely
    exact ⟨hGuar, ih s' hNext⟩

theorem Assured.mono {post'' : α → σ → Prop} (hScript : script.Assured rely guar post s)
    (hRely : ∀ {a b}, rely' a b → rely a b) (hGuar : ∀ {a b}, guar a b → guar' a b)
    (hPost : ∀ {result s}, post result s → post'' result s) :
    script.Assured rely' guar' post'' s := by
  induction script generalizing s with
  | done result => exact fun s' hLater => hPost (hScript s' (hRely hLater))
  | act move next ih =>
    intro s' hLater
    obtain ⟨hStep, hNext⟩ := hScript s' (hRely hLater)
    exact ⟨hGuar hStep, ih s' hNext⟩

theorem Assured.and {post'' : α → σ → Prop} (hScript : script.Assured rely guar post s)
    (hAlso : script.Assured rely guar' post'' s) :
    script.Assured rely (fun a b => guar a b ∧ guar' a b) (fun a s => post a s ∧ post'' a s) s := by
  induction script generalizing s with
  | done result => exact fun s' hLater => ⟨hScript s' hLater, hAlso s' hLater⟩
  | act move next ih =>
    intro s' hLater
    obtain ⟨hStep, hNext⟩ := hScript s' hLater
    obtain ⟨hStep', hNext'⟩ := hAlso s' hLater
    exact ⟨⟨hStep, hStep'⟩, ih s' hNext hNext'⟩

/-- A script that runs alone keeps what it is relied on for. -/
theorem Assured.run (hRefl : ∀ s, rely s s) (hScript : script.Assured rely guar post s) :
    post (script.run s).1 (script.run s).2 := by
  induction script generalizing s with
  | done result => exact hScript s (hRefl s)
  | act move next ih => exact ih s (hScript s (hRefl s)).2

end Assured

end Script

end TryGo.Build
