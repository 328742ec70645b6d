import TryGo.Proofs.Pool.Task
import Mathlib.Logic.Relation

/-! Pools of workers. In a pool, any task that waits can be taken by a free worker, and any task
that runs can do its next action. What a task is relied on for holds however the steps of the tasks
follow each other, provided that each task does only what the others rely on. -/
namespace TryGo.Build

/-- How far a task of a pool is. -/
inductive Stage where
  | waiting
  | running (rest : Script Disk Verdict)
  | ended (verdict : Verdict)

namespace Stage

def isRunning : Stage → Bool
  | .running _ => true
  | _ => false

def isEnded : Stage → Bool
  | .ended _ => true
  | _ => false

/-- What a task still has to do. -/
def script (task : Task) : Stage → Script Disk Verdict
  | .waiting => taskScript task
  | .running rest => rest
  | .ended verdict => .done verdict

end Stage

/-- The disk that the workers share, and the tasks with how far they are. -/
structure Pool where
  disk : Disk
  members : List (Task × Stage)

namespace Pool

def start (disk : Disk) (tasks : List Task) : Pool := ⟨disk, tasks.map fun task => (task, .waiting)⟩

/-- One step of a pool. A waiting task is taken only if a worker is free. -/
inductive Step (workers : Int) : Pool → Pool → Prop where
  | take {disk : Disk} {task : Task} {before after : List (Task × Stage)}
      (hFree : ((before ++ after).countP fun member => member.2.isRunning) < workers) :
      Step workers ⟨disk, before ++ (task, .waiting) :: after⟩
        ⟨disk, before ++ (task, .running (taskScript task)) :: after⟩
  | work {disk : Disk} {task : Task} {before after : List (Task × Stage)} {move : Disk → Disk}
      {next : Disk → Script Disk Verdict} :
      Step workers ⟨disk, before ++ (task, .running (.act move next)) :: after⟩
        ⟨move disk, before ++ (task, .running (next disk)) :: after⟩
  | finish {disk : Disk} {task : Task} {before after : List (Task × Stage)} {verdict : Verdict} :
      Step workers ⟨disk, before ++ (task, .running (.done verdict)) :: after⟩
        ⟨disk, before ++ (task, .ended verdict) :: after⟩

/-- Whether a pool can become another one. -/
abbrev Reaches (workers : Int) : Pool → Pool → Prop := Relation.ReflTransGen (Step workers)

/-! ### Every order of steps -/

section Assured

variable {workers : Int} {rely guar : Task → Disk → Disk → Prop}
  {post : Task → Verdict → Disk → Prop} {whole : Disk → Disk → Prop}

/-- Whether two tasks leave each other what they rely on. -/
def Compatible (rely guar : Task → Disk → Disk → Prop) (first second : Task) : Prop :=
  (∀ {s s'}, guar first s s' → rely second s s') ∧ ∀ {s s'}, guar second s s' → rely first s s'

/-- Whether each task of a pool can still be relied on, and the disk has changed as allowed. -/
structure Sound (rely guar : Task → Disk → Disk → Prop) (post : Task → Verdict → Disk → Prop)
    (whole : Disk → Disk → Prop) (initial : Disk) (pool : Pool) : Prop where
  compatible : (pool.members.map Prod.fst).Pairwise (Compatible rely guar)
  allowed : ∀ task ∈ pool.members.map Prod.fst, ∀ {s s'}, guar task s s' → whole s s'
  assured : ∀ member ∈ pool.members,
    (member.2.script member.1).Assured (rely member.1) (guar member.1) (post member.1) pool.disk
  whole : whole initial pool.disk

/-- What a step of a pool keeps. -/
theorem Step.sound {initial : Disk} {pool next : Pool} (hStep : Step workers pool next)
    (hSound : Sound rely guar post whole initial pool) (hRefl : ∀ task s, rely task s s)
    (hTrans : ∀ task {a b c}, rely task a b → rely task b c → rely task a c)
    (hWhole : ∀ {a b c}, whole a b → whole b c → whole a c) :
    Sound rely guar post whole initial next := by
  obtain ⟨hCompatible, hAllowed, hAssured, hChanged⟩ := hSound
  cases hStep with
  | take hFree =>
    refine ⟨by simpa using hCompatible, by simpa using hAllowed, ?_, hChanged⟩
    simp only [List.forall_mem_append, List.forall_mem_cons] at hAssured ⊢
    exact hAssured
  | @work disk task before after move rest =>
    refine ⟨by simpa using hCompatible, by simpa using hAllowed, ?_, ?_⟩
    · simp only [List.forall_mem_append, List.forall_mem_cons] at hAssured ⊢
      obtain ⟨hBefore, hTask, hAfter⟩ := hAssured
      obtain ⟨hMove, hRest⟩ := hTask disk (hRefl task disk)
      simp only [List.map_append, List.map_cons, List.pairwise_append, List.pairwise_cons,
        List.mem_cons, List.mem_map] at hCompatible
      obtain ⟨-, ⟨hWithAfter, -⟩, hWithBefore⟩ := hCompatible
      refine ⟨fun member hMem => ?_, hRest, fun member hMem => ?_⟩
      · have hOther := hWithBefore member.1 ⟨member, hMem, rfl⟩ task (.inl rfl)
        exact (hBefore member hMem).after (hTrans member.1) (hOther.2 hMove)
      · have hOther := hWithAfter member.1 ⟨member, hMem, rfl⟩
        exact (hAfter member hMem).after (hTrans member.1) (hOther.1 hMove)
    · have hTask := hAssured (task, .running (.act move rest)) (by simp)
      exact hWhole hChanged (hAllowed task (by simp) (hTask disk (hRefl task disk)).1)
  | finish =>
    refine ⟨by simpa using hCompatible, by simpa using hAllowed, ?_, hChanged⟩
    simp only [List.forall_mem_append, List.forall_mem_cons] at hAssured ⊢
    exact hAssured

/-- What a run of a pool keeps, whatever the order of its steps. -/
theorem Reaches.sound {initial : Disk} {pool last : Pool} (hRun : Reaches workers pool last)
    (hSound : Sound rely guar post whole initial pool) (hRefl : ∀ task s, rely task s s)
    (hTrans : ∀ task {a b c}, rely task a b → rely task b c → rely task a c)
    (hWhole : ∀ {a b c}, whole a b → whole b c → whole a c) :
    Sound rely guar post whole initial last := by
  induction hRun with
  | refl => exact hSound
  | tail _ hStep ih => exact hStep.sound ih hRefl hTrans hWhole

/-- The tasks of a pool do not change. -/
theorem Step.tasks_eq {pool next : Pool} (hStep : Step workers pool next) :
    next.members.map Prod.fst = pool.members.map Prod.fst := by
  cases hStep <;> simp

theorem Reaches.tasks_eq {pool last : Pool} (hRun : Reaches workers pool last) :
    last.members.map Prod.fst = pool.members.map Prod.fst := by
  induction hRun with
  | refl => rfl
  | tail _ hStep ih => exact hStep.tasks_eq.trans ih

end Assured

/-! ### The end of a run -/

section Halting

variable {workers : Int}

/-- How one task goes on. -/
inductive Stage.Next (task : Task) : Stage → Stage → Prop where
  | take : Next task (.running (taskScript task)) .waiting
  | work (move : Disk → Disk) (next : Disk → Script Disk Verdict) (disk : Disk) :
      Next task (.running (next disk)) (.running (.act move next))
  | finish (verdict : Verdict) : Next task (.ended verdict) (.running (.done verdict))

theorem Stage.acc_running (task : Task) (script : Script Disk Verdict) :
    Acc (Stage.Next task) (.running script) := by
  induction script with
  | done verdict =>
    refine .intro _ fun stage hNext => ?_
    cases hNext
    exact .intro _ fun stage hNext => by cases hNext
  | act move next ih =>
    refine .intro _ fun stage hNext => ?_
    cases hNext with
    | work _ _ disk => exact ih disk

/-- No task goes on forever. -/
theorem Stage.acc (task : Task) (stage : Stage) : Acc (Stage.Next task) stage := by
  cases stage with
  | waiting =>
    refine .intro _ fun stage hNext => ?_
    cases hNext
    exact acc_running task _
  | running script => exact acc_running task script
  | ended verdict => exact .intro _ fun stage hNext => by cases hNext

/-- One of some tasks goes on. -/
def OneNext (next members : List (Task × Stage)) : Prop :=
  ∃ before task stage' stage after, Stage.Next task stage' stage ∧
    next = before ++ (task, stage') :: after ∧ members = before ++ (task, stage) :: after

theorem acc_cons {task : Task} {stage : Stage} {rest : List (Task × Stage)}
    (hStage : Acc (Stage.Next task) stage) (hRest : Acc OneNext rest) :
    Acc OneNext ((task, stage) :: rest) := by
  induction hStage generalizing rest with
  | intro stage _ ihStage =>
    induction hRest with
    | intro rest hRest ihRest =>
      refine .intro _ ?_
      rintro _ ⟨before, moved, stage', stage'', after, hNext, rfl, hMembers⟩
      cases before with
      | nil =>
        obtain ⟨hHead, rfl⟩ := List.cons.inj hMembers
        obtain ⟨rfl, rfl⟩ := Prod.mk.inj hHead
        exact ihStage stage' hNext (.intro _ hRest)
      | cons first others =>
        obtain ⟨rfl, rfl⟩ := List.cons.inj hMembers
        exact ihRest _ ⟨others, moved, stage', stage'', after, hNext, rfl, rfl⟩

theorem acc_members (members : List (Task × Stage)) : Acc OneNext members := by
  induction members with
  | nil =>
    refine .intro _ ?_
    rintro _ ⟨before, _, _, _, _, _, _, hNil⟩
    simp at hNil
  | cons member rest ih => exact acc_cons (Stage.acc member.1 member.2) ih

/-- No pool goes on forever. -/
theorem acc (workers : Int) (pool : Pool) :
    Acc (fun next pool => Step workers pool next) pool := by
  have hMembers : ∀ next pool, Step workers pool next → OneNext next.members pool.members := by
    intro next pool hStep
    cases hStep with
    | take => exact ⟨_, _, _, _, _, .take, rfl, rfl⟩
    | work => exact ⟨_, _, _, _, _, .work _ _ _, rfl, rfl⟩
    | finish => exact ⟨_, _, _, _, _, .finish _, rfl, rfl⟩
  exact Subrelation.accessible (hMembers _ _) (InvImage.accessible members (acc_members _))

end Halting

/-! ### What a pool comes to -/

def completedOf (results : List (Task × Verdict)) : List Task :=
  results.filterMap fun result =>
    match result.2 with
    | .ok () => some result.1
    | .error _ => none

def failuresOf (results : List (Task × Verdict)) : List (String × String) :=
  results.filterMap fun result =>
    match result.2 with
    | .ok () => none
    | .error error => some (result.1.source.text, error.report)

/-- Whether all tasks have ended, with these results in some order. -/
def Ended (pool : Pool) (results : List (Task × Verdict)) : Prop :=
  (results.map fun result => (result.1, Stage.ended result.2)).Perm pool.members

/-! ### Runs of a pool -/

section Runs

variable {workers : Int} {before after : List (Task × Stage)} {task : Task}

/-- A worker can go on with a task until it has ended. -/
theorem reaches_run (script : Script Disk Verdict) (disk : Disk) :
    Reaches workers ⟨disk, before ++ (task, .running script) :: after⟩
      ⟨(script.run disk).2, before ++ (task, .ended (script.run disk).1) :: after⟩ := by
  induction script generalizing disk with
  | done verdict => exact .single .finish
  | act move next ih => exact .head .work (ih disk (move disk))

/-- A free worker can carry out a whole task. -/
theorem reaches_task (hWorkers : 1 ≤ workers)
    (hIdle : ∀ member ∈ before ++ after, member.2.isRunning = false) (disk : Disk) :
    Reaches workers ⟨disk, before ++ (task, .waiting) :: after⟩
      ⟨(runTask disk task).2.1, before ++ (task, .ended (runTask disk task).1) :: after⟩ := by
  have hNone : ((before ++ after).countP fun member => member.2.isRunning) = 0 :=
    List.countP_eq_zero.mpr fun member hMem => by simp [hIdle member hMem]
  have hRun : Reaches workers ⟨disk, before ++ (task, .running (taskScript task)) :: after⟩ _ :=
    reaches_run (taskScript task) disk
  rw [taskScript_run] at hRun
  exact .head (.take (by omega)) hRun

theorem exists_results {members : List (Task × Stage)}
    (hEnded : ∀ member ∈ members, member.2.isEnded = true) :
    ∃ results : List (Task × Verdict),
      results.map (fun result => (result.1, Stage.ended result.2)) = members := by
  induction members with
  | nil => exact ⟨[], rfl⟩
  | cons member rest ih =>
    obtain ⟨results, hResults⟩ := ih fun other hMem => hEnded other (List.mem_cons_of_mem _ hMem)
    obtain ⟨task, stage⟩ := member
    cases stage with
    | ended verdict => exact ⟨(task, verdict) :: results, by simp [hResults]⟩
    | waiting => simpa [Stage.isEnded] using hEnded _ List.mem_cons_self
    | running rest => simpa [Stage.isEnded] using hEnded _ List.mem_cons_self

/-- As long as not all tasks have ended, a worker can do something. -/
theorem exists_step (hWorkers : 1 ≤ workers) (pool : Pool) :
    (∃ results, pool.Ended results) ∨ ∃ next, Step workers pool next := by
  obtain ⟨disk, members⟩ := pool
  by_cases hRunning : ∃ member ∈ members, member.2.isRunning = true
  · obtain ⟨⟨task, stage⟩, hMem, hStage⟩ := hRunning
    obtain ⟨before, after, rfl⟩ := List.append_of_mem hMem
    cases stage with
    | running rest =>
      cases rest with
      | done verdict => exact .inr ⟨_, .finish⟩
      | act move next => exact .inr ⟨_, .work⟩
    | waiting => cases hStage
    | ended verdict => cases hStage
  by_cases hWaiting : ∃ task, (task, Stage.waiting) ∈ members
  · obtain ⟨task, hMem⟩ := hWaiting
    obtain ⟨before, after, rfl⟩ := List.append_of_mem hMem
    have hIdle : ((before ++ after).countP fun member => member.2.isRunning) = 0 :=
      List.countP_eq_zero.mpr fun member hMember hStage => hRunning ⟨member, by
        simp only [List.mem_append, List.mem_cons] at hMember ⊢
        exact hMember.imp_right .inr, hStage⟩
    exact .inr ⟨_, .take (by omega)⟩
  · have hEnded : ∀ member ∈ members, member.2.isEnded = true := by
      rintro ⟨task, stage⟩ hMem
      cases stage with
      | ended verdict => rfl
      | waiting => exact absurd ⟨task, hMem⟩ hWaiting
      | running rest => exact absurd ⟨_, hMem, rfl⟩ hRunning
    obtain ⟨results, hResults⟩ := exists_results hEnded
    exact .inl ⟨results, List.Perm.of_eq hResults⟩

end Runs

end Pool

/-- Whether a build of some tasks can go one way: the tasks run in a pool until all have ended, and
their results are gathered in any order. -/
def CanBuild (workers : Int) (disk : Disk) (tasks : List Task) (progress : Progress) : Prop :=
  ∃ pool results, Pool.Reaches workers (Pool.start disk tasks) pool ∧ pool.Ended results ∧
    progress.disk = pool.disk ∧ progress.completed = Pool.completedOf results ∧
    progress.failures = Pool.failuresOf results

/-! ### Builds of one task after the other -/

section Sequence

variable {workers : Int}

/-- One more task tried is one more result. -/
theorem Progress.step_eq (progress : Progress) (task : Task) :
    (progress.step task).disk = (runTask progress.disk task).2.1 ∧
      (progress.step task).completed = progress.completed ++
        Pool.completedOf [(task, (runTask progress.disk task).1)] ∧
      (progress.step task).failures = progress.failures ++
        Pool.failuresOf [(task, (runTask progress.disk task).1)] := by
  rcases hRun : runTask progress.disk task with ⟨verdict, disk, events⟩
  cases verdict with
  | ok _ => simp [Progress.step, hRun, Pool.completedOf, Pool.failuresOf]
  | error error => simp [Progress.step, hRun, Pool.completedOf, Pool.failuresOf]

/-- The tasks of a pool can be carried out one after the other, in any order. -/
theorem reaches_foldl (hWorkers : 1 ≤ workers) (order : List Task) (progress : Progress)
    (done : List (Task × Verdict)) (members : List (Task × Stage))
    (hMembers : members.Perm (done.map (fun result => (result.1, Stage.ended result.2)) ++
      order.map fun task => (task, Stage.waiting))) :
    ∃ results last, Pool.Reaches workers ⟨progress.disk, members⟩
        ⟨(order.foldl Progress.step progress).disk, last⟩ ∧
      ((done ++ results).map fun result => (result.1, Stage.ended result.2)).Perm last ∧
      (order.foldl Progress.step progress).completed =
        progress.completed ++ Pool.completedOf results ∧
      (order.foldl Progress.step progress).failures =
        progress.failures ++ Pool.failuresOf results := by
  induction order generalizing progress done members with
  | nil =>
    refine ⟨[], members, .refl, ?_, by simp [Pool.completedOf], by simp [Pool.failuresOf]⟩
    simpa using hMembers.symm
  | cons task rest ih =>
    obtain ⟨hDisk, hCompleted, hFailures⟩ := progress.step_eq task
    have hMem : (task, Stage.waiting) ∈ members := hMembers.symm.subset (by simp)
    obtain ⟨before, after, rfl⟩ := List.append_of_mem hMem
    have hOthers : (before ++ after).Perm
        (done.map (fun result => (result.1, Stage.ended result.2)) ++
          rest.map fun task => (task, Stage.waiting)) :=
      (List.perm_middle.symm.trans (hMembers.trans List.perm_middle)).cons_inv
    have hIdle : ∀ member ∈ before ++ after, member.2.isRunning = false := by
      intro member hMember
      have hOther := hOthers.subset hMember
      simp only [List.mem_append, List.mem_map] at hOther
      rcases hOther with ⟨result, _, rfl⟩ | ⟨other, _, rfl⟩
      · rfl
      · rfl
    have hNext : (before ++ (task, Stage.ended (runTask progress.disk task).1) :: after).Perm
        ((done ++ [(task, (runTask progress.disk task).1)]).map
            (fun result => (result.1, Stage.ended result.2)) ++
          rest.map fun task => (task, Stage.waiting)) := by
      refine List.perm_middle.trans ((hOthers.cons _).trans ?_)
      rw [List.map_append, List.map_singleton, List.append_assoc]
      exact List.perm_middle.symm
    obtain ⟨results, last, hRun, hEnded, hCompletedRest, hFailuresRest⟩ :=
      ih (progress.step task) (done ++ [(task, (runTask progress.disk task).1)]) _ hNext
    refine ⟨(task, (runTask progress.disk task).1) :: results, last, ?_, by simpa using hEnded,
      ?_, ?_⟩
    · rw [hDisk] at hRun
      exact (Pool.reaches_task hWorkers hIdle progress.disk).trans hRun
    · rw [List.foldl_cons, hCompletedRest, hCompleted, List.append_assoc]
      simp [Pool.completedOf, ← List.filterMap_append]
    · rw [List.foldl_cons, hFailuresRest, hFailures, List.append_assoc]
      simp [Pool.failuresOf, ← List.filterMap_append]

/-- A build can try its tasks in any order. -/
theorem canBuild_of_perm {disk : Disk} {tasks order : List Task} (hOrder : order.Perm tasks)
    (hWorkers : 1 ≤ workers) : CanBuild workers disk tasks (runTasks disk order) := by
  obtain ⟨results, last, hRun, hEnded, hCompleted, hFailures⟩ :=
    reaches_foldl hWorkers order ⟨disk, [], [], []⟩ [] _
      (hOrder.symm.map fun task => (task, Stage.waiting))
  exact ⟨_, results, hRun, hEnded, rfl, hCompleted, hFailures⟩

end Sequence

end TryGo.Build
