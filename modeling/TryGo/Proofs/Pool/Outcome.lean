import Mathlib.Data.List.Pairwise
import TryGo.Proofs.Pool.Fate
import TryGo.Proofs.Pool.Run

/-! What a build comes to, however its tasks run. If the tasks keep off each other's targets, each
of them ends as it ends alone, the failures are the same, and so is what is on the disk. -/
namespace TryGo.Build

open Disk (Grows)

/-- Whether no target of a task is another one, stands above another one, or is a source. -/
structure Separate (disk : Disk) (tasks : List Task) : Prop where
  targets : tasks.Pairwise fun first second =>
    ¬ first.spot disk.here <+: second.spot disk.here ∧
      ¬ second.spot disk.here <+: first.spot disk.here
  sources : ∀ first ∈ tasks, ∀ second ∈ tasks,
    first.spot disk.here ≠ second.source.locate disk.here

/-- Whether tasks keep apart, as a list for one build. Targets have no steps to a parent. Where the
way to a source ends because a name is missing, no target stands there or below. -/
structure Apart (disk : Disk) (tasks : List Task) : Prop extends Separate disk tasks where
  here : disk.look disk.here = some .dir
  plain : ∀ task ∈ tasks, task.target.Plain
  tidy : ∀ task ∈ tasks, task.source.Tidy
  missing : ∀ first ∈ tasks, ∀ location,
    disk.missingOn (disk.startOf first.source) first.source.parts = some location →
      ∀ second ∈ tasks, ¬ location <+: second.spot disk.here

/-! ### Where sources lead -/

section Sources

variable {disk : Disk} {start location : Location} {names : List String}

/-- A path leads to its location, if it leads anywhere. -/
theorem Disk.follow_eq_resolve (hTidy : ∀ name ∈ names, name ≠ "" ∧ name ≠ ".")
    (hFollow : disk.follow start names = .ok location) :
    location = Path.resolveParts start.reverse names := by
  induction names generalizing start with
  | nil => simpa [Disk.follow, Path.resolveParts, eq_comm] using hFollow
  | cons name rest ih =>
    have hRest : ∀ {start : Location}, disk.follow start rest = .ok location →
        location = Path.resolveParts start.reverse rest :=
      ih fun next hMem => hTidy next (List.mem_cons_of_mem _ hMem)
    obtain ⟨hName, hPoint⟩ := hTidy name List.mem_cons_self
    rw [Disk.follow_cons] at hFollow
    rw [Path.resolveParts]
    split at hFollow
    · cases hFollow
    · cases hFollow
    · simp only [beq_eq_false_iff_ne.mpr hName, beq_eq_false_iff_ne.mpr hPoint, Bool.or_self,
        Bool.false_eq_true, if_false] at hFollow
      split at hFollow
      · next hUp =>
        rw [if_pos hUp, hRest hFollow, List.tail_reverse]
      · next hDown =>
        rw [if_neg hDown]
        split at hFollow
        · rw [hRest hFollow, List.reverse_append]
          rfl
        · cases hFollow

theorem Path.Tidy.eq_locate {path : Path} (hTidy : path.Tidy)
    (hFollow : disk.follow (disk.startOf path) path.parts = .ok location) :
    location = path.locate disk.here := by
  rw [Path.locate, Disk.follow_eq_resolve hTidy hFollow, Disk.startOf]
  split <;> rfl

end Sources

/-! ### What the tasks leave each other -/

section Shares

variable {disk after : Disk} {tasks : List Task} {task other : Task} {location : Location}

/-- Whether a task has an output, so that it comes to making directories and writing. -/
def HasOutput (disk : Disk) (task : Task) : Prop :=
  ∃ output, (transpilePath disk task.source none).1 = .ok output

def MadeBy (disk : Disk) (tasks : List Task) (location : Location) : Prop :=
  ∃ task ∈ tasks, HasOutput disk task ∧ task.Makes disk.here location

def WrittenBy (disk : Disk) (tasks : List Task) (location : Location) : Prop :=
  ∃ task ∈ tasks, HasOutput disk task ∧ task.Writes disk.here location

/-- Whether some task writes a location that is not the target of a given one. -/
def WrittenBeside (disk : Disk) (tasks : List Task) (task : Task) (location : Location) : Prop :=
  WrittenBy disk tasks location ∧ location ≠ task.spot disk.here

/-- What a task does at most. -/
def Share (disk : Disk) (task : Task) : Disk → Disk → Prop :=
  Grows (fun location => HasOutput disk task ∧ task.Makes disk.here location)
    (fun location => HasOutput disk task ∧ task.Writes disk.here location)

/-- What a task can rely on of the others. -/
def Leave (disk : Disk) (tasks : List Task) (task : Task) : Disk → Disk → Prop :=
  Grows (MadeBy disk tasks) (WrittenBeside disk tasks task)

theorem transpilePath_congr {path : Path} (hRead : after.read path = disk.read path)
    (filename : Option String) :
    transpilePath after path filename = transpilePath disk path filename := by
  simp only [transpilePath, readSource, hRead]

theorem look_startOf (hHere : disk.look disk.here = some .dir) (path : Path) :
    disk.look (disk.startOf path) = some .dir := by
  rw [Disk.startOf]
  split
  · exact hHere
  · cases hNames : disk.here with
    | nil => rwa [hNames] at hHere
    | cons name rest =>
      have hBelow : disk.look ([] ++ name :: rest) ≠ none := by
        rw [List.nil_append, ← hNames, hHere]
        exact Option.some_ne_none _
      exact Disk.look_of_look_append hBelow

namespace Apart

variable (hApart : Apart disk tasks)

include hApart

/-- No target stands above another one. -/
theorem not_prefix (hTask : task ∈ tasks) (hOther : other ∈ tasks)
    (hDifferent : other.spot disk.here ≠ task.spot disk.here) :
    ¬ other.spot disk.here <+: task.spot disk.here := by
  have hSymm : Std.Symm fun first second : Task =>
      ¬ first.spot disk.here <+: second.spot disk.here ∧
        ¬ second.spot disk.here <+: first.spot disk.here := ⟨fun _ _ hBoth => hBoth.symm⟩
  have hTasks : other ≠ task := fun hSame => hDifferent (hSame ▸ rfl)
  exact (hApart.targets.forall hOther hTask hTasks).1

/-- A source reads the same whatever the others have done. -/
theorem source_eq (hTask : task ∈ tasks)
    (hGrows : Grows (MadeBy disk tasks) (WrittenBeside disk tasks task) disk after) :
    (transpilePath after task.source none).1 = (transpilePath disk task.source none).1 := by
  have hStart := look_startOf hApart.here task.source
  have hFollow : after.follow (disk.startOf task.source) task.source.parts =
      disk.follow (disk.startOf task.source) task.source.parts := by
    by_cases hMissing : disk.follow (disk.startOf task.source) task.source.parts = .error .noEntry
    · rw [hMissing]
      refine hGrows.follow_eq_noEntry (by simp [hStart]) (fun location hLocation => ?_) hMissing
      have hClear := hApart.missing task hTask location hLocation
      refine ⟨?_, ?_⟩
      · rintro ⟨other, hOther, _, hAbove, _⟩
        exact hClear other hOther hAbove
      · rintro ⟨⟨other, hOther, _, rfl⟩, _⟩
        exact hClear other hOther List.prefix_rfl
    · exact hGrows.follow_eq hMissing
  have hRead : after.read task.source = disk.read task.source := by
    refine hGrows.read_eq (by simp [hStart]) hFollow ?_
    rintro location hLead ⟨⟨other, hOther, _, hSpot⟩, _⟩
    exact hApart.sources other hOther task hTask
      (hSpot.symm.trans ((hApart.tidy task hTask).eq_locate hLead))
  rw [transpilePath_congr hRead]

theorem undisturbed (hTask : task ∈ tasks) :
    Undisturbed (MadeBy disk tasks) (WrittenBeside disk tasks task) disk task where
  plain := hApart.plain task hTask
  start := look_startOf hApart.here task.target
  source _ hGrows := hApart.source_eq hTask hGrows
  makes output hOutput location hMakes := ⟨task, hTask, ⟨output, hOutput⟩, hMakes⟩
  unmade := by
    rintro ⟨other, hOther, _, hAbove, hBelow⟩
    exact hApart.not_prefix hOther hTask hBelow hAbove
  unwritten := by
    rintro location hAbove ⟨⟨other, hOther, _, rfl⟩, hBeside⟩
    exact hApart.not_prefix hTask hOther hBeside hAbove

/-- A task does no more than its share, and ends as it ends alone. -/
theorem share (hTask : task ∈ tasks) :
    (taskScript task).Assured (Leave disk tasks task) (Share disk task)
      (Fulfills disk task) disk := by
  have hEnds := (hApart.undisturbed hTask).assured (Grows.refl _ _ disk)
  have hShare : (taskScript task).Assured (Leave disk tasks task) (Share disk task)
      (fun _ _ => True) disk := by
    by_cases hOutput : HasOutput disk task
    · refine (growsOnly_taskScript (hApart.plain task hTask) disk rfl).mono
        (fun hLeave => hLeave.here) (fun hGrows => ?_) fun _ => trivial
      exact hGrows.mono (fun _ hMakes => ⟨hOutput, hMakes⟩) fun _ hWrites => ⟨hOutput, hWrites⟩
    · have hRead : (ask fun disk => (transpilePath disk task.source none).1).Assured
          (Leave disk tasks task) (Share disk task)
          (fun result _ => result = (transpilePath disk task.source none).1) disk :=
        assured_ask fun now hNow =>
          ⟨Grows.refl _ _ now, fun _ _ => hApart.source_eq hTask hNow⟩
      refine hRead.bind (Grows.refl _ _) fun result _ hResult => ?_
      cases result with
      | ok output => exact absurd ⟨output, hResult.symm⟩ hOutput
      | error error => exact Script.assured_pure fun _ _ => trivial
  exact (hShare.and hEnds).mono id And.left And.right

/-- What one task does, the others do not mind. -/
theorem compatible : tasks.Pairwise (Pool.Compatible (Leave disk tasks) (Share disk)) := by
  have hLeave : ∀ {first second}, first ∈ tasks → first.spot disk.here ≠ second.spot disk.here →
      ∀ {s s'}, Share disk first s s' → Leave disk tasks second s s' := by
    intro first second hFirst hDifferent s s' hShare
    refine hShare.mono (fun location hMakes => ⟨first, hFirst, hMakes⟩) ?_
    rintro location ⟨hOutput, hSpot⟩
    exact ⟨⟨first, hFirst, hOutput, hSpot⟩, hSpot ▸ hDifferent⟩
  refine hApart.targets.imp_of_mem fun {first second} hFirst hSecond hTargets => ?_
  have hDifferent : first.spot disk.here ≠ second.spot disk.here := fun hSame =>
    hTargets.1 (hSame ▸ List.prefix_rfl)
  exact ⟨hLeave hFirst hDifferent, hLeave hSecond hDifferent.symm⟩

end Apart

end Shares

/-! ### The end of a build -/

/-- The tasks with their verdicts when each is tried alone. -/
def verdicts (disk : Disk) (tasks : List Task) : List (Task × Verdict) :=
  tasks.map fun task => (task, (runTask disk task).1)

/-- Whether a disk is what a build leaves. -/
structure Leaves (disk : Disk) (tasks : List Task) (last : Disk) : Prop where
  grows : Grows (MadeBy disk tasks) (WrittenBy disk tasks) disk last
  fulfills : ∀ task ∈ tasks, Fulfills disk task (runTask disk task).1 last

section End

variable {disk last other : Disk} {tasks : List Task} {workers : Int} {progress : Progress}

/-- The tasks of a build end as they end alone. -/
theorem Pool.Ended.fulfills {pool : Pool} {results : List (Task × Verdict)}
    (hApart : Apart disk tasks) (hRun : Pool.Reaches workers (Pool.start disk tasks) pool)
    (hEnded : pool.Ended results) :
    Grows (MadeBy disk tasks) (WrittenBy disk tasks) disk pool.disk ∧
      ∀ result ∈ results, Fulfills disk result.1 result.2 pool.disk := by
  have hStart : Pool.Sound (Leave disk tasks) (Share disk) (Fulfills disk)
      (Grows (MadeBy disk tasks) (WrittenBy disk tasks)) disk (Pool.start disk tasks) := by
    refine ⟨by simpa [Pool.start, Function.comp_def] using hApart.compatible, ?_, ?_,
      Grows.refl _ _ disk⟩
    · intro task hTask s s' hShare
      have hMem : task ∈ tasks := by simpa [Pool.start] using hTask
      exact hShare.mono (fun location hMakes => ⟨task, hMem, hMakes⟩)
        fun location hWrites => ⟨task, hMem, hWrites⟩
    · intro member hMem
      obtain ⟨task, hTask, rfl⟩ := List.mem_map.mp hMem
      exact hApart.share hTask
  have hSound := hRun.sound hStart (fun _ => Grows.refl _ _) (fun _ => Grows.trans) Grows.trans
  refine ⟨hSound.whole, fun result hResult => ?_⟩
  have hMember := hSound.assured _ (hEnded.subset (List.mem_map_of_mem hResult))
  exact hMember pool.disk (Grows.refl _ _ _)

/-- A build leaves the same whatever way it goes, and its results are those of the tasks alone. -/
theorem CanBuild.leaves (hApart : Apart disk tasks)
    (hBuild : CanBuild workers disk tasks progress) :
    Leaves disk tasks progress.disk ∧
      progress.completed.Perm (Pool.completedOf (verdicts disk tasks)) ∧
      progress.failures.Perm (Pool.failuresOf (verdicts disk tasks)) := by
  obtain ⟨pool, results, hRun, hEnded, hDisk, hCompleted, hFailures⟩ := hBuild
  obtain ⟨hGrows, hFulfills⟩ := hEnded.fulfills hApart hRun
  have hTasks : (results.map Prod.fst).Perm tasks := by
    have hMembers := hEnded.map Prod.fst
    rw [hRun.tasks_eq] at hMembers
    simpa [Pool.start, Function.comp_def] using hMembers
  have hResults : results.Perm (verdicts disk tasks) := by
    have hSame : results = verdicts disk (results.map Prod.fst) := by
      rw [verdicts, List.map_map]
      refine (List.map_id results).symm.trans (List.map_congr_left fun result hResult => ?_)
      exact Prod.ext rfl (hFulfills result hResult).1
    rw [hSame]
    exact hTasks.map _
  rw [hDisk, hCompleted, hFailures]
  refine ⟨⟨hGrows, fun task hTask => ?_⟩, hResults.filterMap _, hResults.filterMap _⟩
  exact hFulfills _ (hResults.symm.subset (List.mem_map_of_mem hTask))

/-- A task that has an output but fails leaves nothing anywhere on its way. -/
theorem Leaves.look_eq_of_fails {task : Task} {location : Location} (hApart : Apart disk tasks)
    (hLast : Leaves disk tasks last) (hTask : task ∈ tasks) (hOutput : HasOutput disk task)
    (hFails : (runTask disk task).1 ≠ .ok ()) (hAbove : location <+: task.spot disk.here) :
    last.look location = disk.look location := by
  obtain ⟨output, hOutput⟩ := hOutput
  have hPrefix : ∀ below, location <+: below → location ≠ below → disk.look below ≠ none →
      last.look location = disk.look location := by
    intro below hLocation hOther hThere
    have hDir := Disk.look_of_prefix hLocation hOther hThere
    rw [hLast.grows.look_dir hDir, hDir]
  rcases (hApart.undisturbed hTask).inTheWay_of_fails hOutput hFails with hBarred | hDir
  · obtain ⟨above, name, rest, bytes, hSpot, hFile⟩ := hBarred
    have hAboveSpot : above <+: task.spot disk.here := hSpot ▸ List.prefix_append _ _
    by_cases hSame : location = above
    · have hUnwritten : ¬ WrittenBy disk tasks above := by
        rintro ⟨other, hOther, _, rfl⟩
        refine hApart.not_prefix hTask hOther (fun hEqual => ?_) hAboveSpot
        rw [hEqual] at hSpot
        simpa using congrArg List.length hSpot
      rw [hSame, hFile, (hLast.grows.look_file_iff hUnwritten).mpr hFile]
    rcases List.prefix_or_prefix_of_prefix hAbove hAboveSpot with hBefore | ⟨back, rfl⟩
    · exact hPrefix above hBefore hSame (by simp [hFile])
    · cases back with
      | nil => simp at hSame
      | cons next others =>
        have hBehind : disk.Barred (above ++ next :: others) :=
          ⟨above, next, others, bytes, rfl, hFile⟩
        rw [hBehind.look_eq_none, (hLast.grows.barred hBehind).look_eq_none]
  · by_cases hSame : location = task.spot disk.here
    · rw [hSame, hDir, hLast.grows.look_dir hDir]
    · exact hPrefix _ hAbove hSame (by simp [hDir])

/-- Where no task succeeds, a build leaves everything as it was. -/
theorem Leaves.look_eq_initial {location : Location} (hApart : Apart disk tasks)
    (hLast : Leaves disk tasks last)
    (hOutside : ∀ task ∈ tasks, (runTask disk task).1 = .ok () →
      ¬ location <+: task.spot disk.here) : last.look location = disk.look location := by
  have hFails : ∀ task ∈ tasks, location <+: task.spot disk.here →
      (runTask disk task).1 ≠ .ok () := fun task hTask hAbove hOk =>
    hOutside task hTask hOk hAbove
  by_contra hChanged
  refine hChanged (hLast.grows.look_eq ?_ ?_)
  · rintro ⟨task, hTask, hOutput, hAbove, _⟩
    exact hChanged (hLast.look_eq_of_fails hApart hTask hOutput (hFails task hTask hAbove) hAbove)
  · rintro ⟨task, hTask, hOutput, rfl⟩
    exact hChanged (hLast.look_eq_of_fails hApart hTask hOutput
      (hFails task hTask List.prefix_rfl) List.prefix_rfl)

/-- What a build leaves is settled by the disk and the tasks that it starts with. -/
theorem Leaves.look_eq (hApart : Apart disk tasks) (hLast : Leaves disk tasks last)
    (hOther : Leaves disk tasks other) (location : Location) :
    last.look location = other.look location := by
  by_cases hInside : ∃ task ∈ tasks, (runTask disk task).1 = .ok () ∧
      location <+: task.spot disk.here
  · obtain ⟨task, hTask, hOk, hAbove⟩ := hInside
    obtain ⟨output, hOutput, hFile⟩ := (hLast.fulfills task hTask).2 hOk
    obtain ⟨output', hOutput', hFile'⟩ := (hOther.fulfills task hTask).2 hOk
    obtain rfl := Except.ok.inj (hOutput.symm.trans hOutput')
    by_cases hSpot : location = task.spot disk.here
    · rw [hSpot, hFile, hFile']
    · rw [Disk.look_of_prefix hAbove hSpot (by simp [hFile]),
        Disk.look_of_prefix hAbove hSpot (by simp [hFile'])]
  · have hOutside : ∀ task ∈ tasks, (runTask disk task).1 = .ok () →
        ¬ location <+: task.spot disk.here := fun task hTask hOk hAbove =>
      hInside ⟨task, hTask, hOk, hAbove⟩
    rw [hLast.look_eq_initial hApart hOutside, hOther.look_eq_initial hApart hOutside]

end End

end TryGo.Build
