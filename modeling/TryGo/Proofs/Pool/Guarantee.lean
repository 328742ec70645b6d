import TryGo.Proofs.Pool.Task

/-! What a task does to a disk, whatever the others do meanwhile. It makes directories above its
target only, and it writes its target only. -/
namespace TryGo.Build

open Disk (Grows)

def Task.spot (here : Location) (task : Task) : Location := task.target.locate here

/-- Whether a task makes a directory at a location if there is none: it is above its target. -/
def Task.Makes (here : Location) (task : Task) (location : Location) : Prop :=
  location <+: task.spot here ∧ location ≠ task.spot here

def Task.Writes (here : Location) (task : Task) (location : Location) : Prop :=
  location = task.spot here

def SameHere (before after : Disk) : Prop := after.here = before.here

variable {here : Location} {made written : Location → Prop} {disk : Disk} {path : Path}
  {rely : Disk → Disk → Prop}

/-! ### Locations of plain paths -/

/-- Names without a step upwards are left as they are. -/
theorem resolveParts_of_names {names : List String} (hNames : ∀ name ∈ names, IsName name)
    (above : List String) : Path.resolveParts above names = above.reverse ++ names := by
  induction names generalizing above with
  | nil => simp [Path.resolveParts]
  | cons name rest ih =>
    have hName := hNames name List.mem_cons_self
    simp only [Path.resolveParts, beq_eq_false_iff_ne.mpr hName.2.2, Bool.false_eq_true, if_false]
    rw [ih fun next hMem => hNames next (List.mem_cons_of_mem _ hMem)]
    simp

/-- A plain path spells its location. -/
theorem Path.Plain.locate_eq (hPlain : path.Plain) (disk : Disk) :
    path.locate disk.here = disk.startOf path ++ path.parts := by
  rw [Path.locate, resolveParts_of_names hPlain, Disk.startOf]
  split <;> simp

/-! ### What a script changes -/

/-- Whether a script grows a disk in some places only, whatever happens to the files meanwhile. -/
def GrowsOnly {α : Type} (here : Location) (made written : Location → Prop)
    (script : Script Disk α) : Prop :=
  ∀ disk, disk.here = here →
    script.Assured SameHere (Grows made written) (fun _ after => after.here = here) disk

namespace GrowsOnly

variable {α β : Type} {script : Script Disk α}

theorem value (result : α) : GrowsOnly here made written (pure result) :=
  fun _ hHere => Script.assured_pure fun _ hSame => hSame.trans hHere

/-- A script that goes on after another makes and writes what both do. -/
theorem bind (hScript : GrowsOnly here made written script) {after : α → Script Disk β}
    (hAfter : ∀ result, GrowsOnly here made written (after result)) :
    GrowsOnly here made written (script >>= after) := by
  have hRefl : ∀ disk, SameHere disk disk := fun _ => rfl
  exact fun disk hHere => (hScript disk hHere).bind hRefl hAfter

/-- A question changes nothing. -/
theorem ask (answer : Disk → α) : GrowsOnly here made written (ask answer) :=
  fun _ hHere => assured_ask fun now hSame =>
    ⟨Grows.refl _ _ now, fun _ hLater => hLater.trans (hSame.trans hHere)⟩

/-- A change makes and writes what it does on any disk. -/
theorem attempt {ε : Type} {change : Disk → Except ε Disk}
    (hChange : ∀ before after, before.here = here → change before = .ok after →
      Grows made written before after) : GrowsOnly here made written (attempt change) := by
  intro disk hHere
  refine assured_attempt fun now hSame => ?_
  have hNow := hSame.trans hHere
  cases hDo : change now with
  | ok after =>
    have hGrows := hChange now after hNow hDo
    exact .inl ⟨after, rfl, hGrows, fun _ hLater => hLater.trans (hGrows.here.trans hNow)⟩
  | error error => exact .inr ⟨error, rfl, Grows.refl _ _ now, fun _ hLater => hLater.trans hNow⟩

end GrowsOnly

/-- A path whose place is one where a directory may be made. -/
def MayMake (here : Location) (made : Location → Prop) (path : Path) : Prop :=
  ∀ (disk : Disk) (location : Location), disk.here = here →
    disk.place path = .ok (some location) → made location

/-- Making a directory changes nothing else. -/
theorem growsOnly_makeDir (hMade : MayMake here made path) :
    GrowsOnly here made written (attempt fun disk => disk.makeDir path) :=
  .attempt fun before _ hHere hDo =>
    Grows.of_makeDir hDo fun location hPlace => hMade before location hHere hPlace

theorem growsOnly_settleDir (answer : Except Errno Unit) :
    GrowsOnly here made written (settleDir path answer) := by
  have hCheck : ∀ errno, GrowsOnly here made written (checkScript path errno) := by
    intro errno
    refine (GrowsOnly.ask _).bind fun there => ?_
    split
    · exact .value _
    · exact .value _
  cases answer with
  | ok _ => exact .value _
  | error errno =>
    cases errno with
    | noEntry => exact .value _
    | «exists» => exact hCheck _
    | notDir => exact hCheck _
    | isDir => exact hCheck _

theorem growsOnly_dirScript (hMade : MayMake here made path) :
    GrowsOnly here made written (dirScript path) :=
  (growsOnly_makeDir hMade).bind fun answer => growsOnly_settleDir answer

/-- Making the directories above a file changes nothing else. -/
theorem growsOnly_dirsScript {anchor : Anchor} {names : List String}
    (hMade : ∀ above, above <:+ names → MayMake here made ⟨anchor, above.reverse⟩) :
    GrowsOnly here made written (dirsScript anchor names) := by
  induction names with
  | nil => exact growsOnly_dirScript (hMade [] List.suffix_rfl)
  | cons name above ih =>
    have hPath := hMade (name :: above) List.suffix_rfl
    refine (growsOnly_makeDir hPath).bind fun answer => ?_
    split
    · refine (ih fun others hOthers => hMade others (hOthers.trans (List.suffix_cons _ _))).bind
        fun made => ?_
      cases made with
      | ok _ => exact growsOnly_dirScript hPath
      | error error => exact .value _
    · exact growsOnly_settleDir answer

/-- Writing a file changes nothing else. -/
theorem growsOnly_writeScript (bytes : List UInt8) (hWritten : MayMake here written path) :
    GrowsOnly here made written (writeScript path bytes) := by
  have hWrite : ∀ bytes, GrowsOnly here made written (attempt fun disk => disk.write path bytes) :=
    fun bytes => .attempt fun before _ hHere hDo =>
      Grows.of_write hDo fun location hPlace => hWritten before location hHere hPlace
  refine (hWrite []).bind fun opened => ?_
  cases opened with
  | ok _ => exact hWrite bytes
  | error error => exact .value _

/-- A plain path that is part of the way to another one leads above it. -/
theorem mayMake_above {task : Task} (hPlain : task.target.Plain) {above : List String}
    (hAbove : above <+: task.target.parent.parts) :
    MayMake here (task.Makes here) ⟨task.target.anchor, above⟩ := by
  intro disk location hHere hPlace
  subst hHere
  have hParts : above <+: task.target.parts := hAbove.trans (List.dropLast_prefix _)
  have hNames : Path.Plain ⟨task.target.anchor, above⟩ := fun part hMem =>
    hPlain part (hParts.subset hMem)
  have hLocation : location = disk.startOf task.target ++ above := Disk.eq_of_place hNames hPlace
  have hShorter : above.length < task.target.parts.length := by
    obtain ⟨names, name, _, hLast, _⟩ := Disk.place_inv hPlace
    have hSome : above.length = names.length + 1 := by
      rw [show above = names ++ [name] from hLast, List.length_append, List.length_singleton]
    have hLength := hAbove.length_le
    rw [Path.parent, List.length_dropLast] at hLength
    omega
  rw [Task.Makes, Task.spot, hPlain.locate_eq, hLocation]
  refine ⟨List.prefix_append_right_inj _ |>.mpr hParts, fun hSame => ?_⟩
  have hEqual := List.append_cancel_left hSame
  rw [hEqual] at hShorter
  exact absurd hShorter (Nat.lt_irrefl _)

/-- A task makes directories above its target, and writes its target. -/
theorem growsOnly_taskScript {task : Task} (hPlain : task.target.Plain) :
    GrowsOnly here (task.Makes here) (task.Writes here) (taskScript task) := by
  refine (GrowsOnly.ask _).bind fun source => ?_
  cases source with
  | error error => exact .value _
  | ok output =>
    have hMade : ∀ above, above <:+ task.target.parent.parts.reverse →
        MayMake here (task.Makes here) ⟨task.target.anchor, above.reverse⟩ := fun above hAbove =>
      mayMake_above hPlain (by simpa using List.reverse_prefix.mpr hAbove)
    have hWritten : MayMake here (task.Writes here) task.target := by
      rintro disk location rfl hPlace
      rw [Task.Writes, Task.spot, hPlain.locate_eq, Disk.eq_of_place hPlain hPlace]
    refine (growsOnly_dirsScript hMade).bind fun made => ?_
    cases made with
    | error error => exact .value _
    | ok _ =>
      exact (growsOnly_writeScript _ hWritten).bind fun wrote => .value _

end TryGo.Build
