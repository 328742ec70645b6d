import TryGo.Proofs.Pool.Outcome
import Mathlib.Data.String.Basic
import Mathlib.Data.List.Sort

/-! A build comes to the same however its tasks run: to all tasks, or to the failures in order, and
to one content of the disk. -/
namespace TryGo.Build

/-! ### The order of failures -/

/-- Pairs are in the order of their first parts, and then of their second. -/
theorem pairLE_iff {a b : String × String} :
    pairLE a b = true ↔ a.1 < b.1 ∨ a.1 = b.1 ∧ a.2 ≤ b.2 := by
  unfold pairLE
  split
  · next hSame => simp [hSame]
  · next hOther => simp [hOther, lt_iff_le_and_ne]

theorem pairLE_total (a b : String × String) : (pairLE a b || pairLE b a) = true := by
  rw [Bool.or_eq_true, pairLE_iff, pairLE_iff]
  rcases lt_trichotomy a.1 b.1 with hLess | hSame | hMore
  · exact .inl (.inl hLess)
  · exact (le_total a.2 b.2).imp (fun hLE => .inr ⟨hSame, hLE⟩) fun hGE => .inr ⟨hSame.symm, hGE⟩
  · exact .inr (.inl hMore)

theorem pairLE_trans (a b c : String × String) (hFirst : pairLE a b = true)
    (hSecond : pairLE b c = true) : pairLE a c = true := by
  rw [pairLE_iff] at *
  rcases hFirst with hLess | ⟨hSame, hLE⟩
  · rcases hSecond with hLess' | ⟨hSame', _⟩
    · exact .inl (hLess.trans hLess')
    · exact .inl (hSame' ▸ hLess)
  · rcases hSecond with hLess' | ⟨hSame', hLE'⟩
    · exact .inl (hSame ▸ hLess')
    · exact .inr ⟨hSame.trans hSame', hLE.trans hLE'⟩

theorem pairLE_antisymm {a b : String × String} (hFirst : pairLE a b = true)
    (hSecond : pairLE b a = true) : a = b := by
  rw [pairLE_iff] at *
  rcases hFirst with hLess | ⟨hSame, hLE⟩
  · rcases hSecond with hMore | ⟨hSame, _⟩
    · exact absurd hLess hMore.asymm
    · exact absurd hSame hLess.ne'
  · rcases hSecond with hMore | ⟨_, hGE⟩
    · exact absurd hSame hMore.ne'
    · exact Prod.ext hSame (le_antisymm hLE hGE)

/-- The order in which failures come up does not show in their report. -/
theorem mergeSort_pairLE_eq {first second : List (String × String)} (hPerm : first.Perm second) :
    first.mergeSort pairLE = second.mergeSort pairLE := by
  have hSorted := List.pairwise_mergeSort pairLE_trans pairLE_total
  refine List.Perm.eq_of_pairwise (fun a b _ _ => pairLE_antisymm) (hSorted first)
    (hSorted second) ?_
  exact (List.mergeSort_perm _ _).trans (hPerm.trans (List.mergeSort_perm _ _).symm)

/-! ### What a build comes to -/

section Settled

variable {disk last : Disk} {tasks : List Task} {workers : Int} {progress : Progress} {task : Task}

/-- Whether a build has come to what its tasks come to alone. Its outcome is all tasks, or one
failure for each task that fails, in order. Each target of a task that does not fail holds its
output. What is on the disk is what is there after trying the tasks one after the other. -/
structure Settled (disk : Disk) (tasks : List Task) (progress : Progress) : Prop where
  completed : (∀ task ∈ tasks, (runTask disk task).1 = .ok ()) →
    ∃ completed, progress.outcome = .ok completed ∧ completed.Perm tasks
  failed : (∃ task ∈ tasks, (runTask disk task).1 ≠ .ok ()) →
    progress.outcome = .error ⟨(Pool.failuresOf (verdicts disk tasks)).mergeSort pairLE⟩
  written : ∀ task ∈ tasks, (runTask disk task).1 = .ok () →
    ∃ text output, readSource disk task.source = .ok text ∧ goSource text none = .ok output ∧
      progress.disk.read task.target = .ok (Text.encodeUtf8 output)
  look : ∀ location, progress.disk.look location = (runTasks disk tasks).disk.look location

/-- What is transpiled is the text of a source. -/
theorem transpilePath_ok {path : Path} {output : String}
    (hOutput : (transpilePath disk path none).1 = .ok output) :
    ∃ text, readSource disk path = .ok text ∧ goSource text none = .ok output := by
  unfold transpilePath at hOutput
  cases hRead : readSource disk path with
  | error error => simp [hRead] at hOutput
  | ok text =>
    rw [hRead] at hOutput
    refine ⟨text, rfl, ?_⟩
    cases hSource : goSource text none with
    | error failure => simp [hSource, Except.mapError] at hOutput
    | ok go => simpa [hSource, Except.mapError] using hOutput

/-- If every task succeeds, all of them are completed. -/
theorem completedOf_verdicts (hOk : ∀ task ∈ tasks, (runTask disk task).1 = .ok ()) :
    Pool.completedOf (verdicts disk tasks) = tasks := by
  induction tasks with
  | nil => rfl
  | cons task rest ih =>
    obtain ⟨hTask, hRest⟩ := List.forall_mem_cons.mp hOk
    rw [verdicts, List.map_cons, Pool.completedOf, List.filterMap_cons, hTask]
    exact congrArg _ (ih hRest)

/-- There are no failures exactly if every task succeeds. -/
theorem failuresOf_verdicts_eq_nil_iff :
    Pool.failuresOf (verdicts disk tasks) = [] ↔
      ∀ task ∈ tasks, (runTask disk task).1 = .ok () := by
  simp only [Pool.failuresOf, verdicts, List.filterMap_eq_nil_iff, List.forall_mem_map]
  refine forall₂_congr fun task _ => ?_
  cases (runTask disk task).1 <;> simp

/-- A target that holds its output can be read. -/
theorem Leaves.read_eq (hApart : Apart disk tasks) (hLast : Leaves disk tasks last)
    (hTask : task ∈ tasks) (hOk : (runTask disk task).1 = .ok ()) :
    ∃ text output, readSource disk task.source = .ok text ∧ goSource text none = .ok output ∧
      last.read task.target = .ok (Text.encodeUtf8 output) := by
  obtain ⟨output, hOutput, hFile⟩ := (hLast.fulfills task hTask).2 hOk
  obtain ⟨text, hText, hGo⟩ := transpilePath_ok hOutput
  refine ⟨text, output, hText, hGo, ?_⟩
  have hPlain := hApart.plain task hTask
  rw [Task.spot, hPlain.locate_eq, ← hLast.grows.startOf] at hFile
  rw [Disk.read_eq, Disk.follow_of_look hPlain (by simp [hFile])]
  simp only [hFile]

/-- Whatever way a build goes, it comes to what its tasks come to alone. -/
theorem CanBuild.settled (hApart : Apart disk tasks) (hWorkers : 1 ≤ workers)
    (hBuild : CanBuild workers disk tasks progress) : Settled disk tasks progress := by
  obtain ⟨hLast, hCompleted, hFailures⟩ := hBuild.leaves hApart
  obtain ⟨hOther, _⟩ := (canBuild_of_perm (.refl tasks) hWorkers).leaves hApart
  refine ⟨fun hOk => ?_, fun hFails => ?_, fun task hTask hOk => hLast.read_eq hApart hTask hOk,
    hLast.look_eq hApart hOther⟩
  · rw [failuresOf_verdicts_eq_nil_iff.mpr hOk, List.perm_nil] at hFailures
    rw [completedOf_verdicts hOk] at hCompleted
    rw [Progress.outcome, hFailures]
    exact ⟨_, rfl, (List.mergeSort_perm _ _).trans hCompleted⟩
  · have hSome : progress.failures ≠ [] := by
      rintro hNil
      obtain ⟨task, hTask, hFail⟩ := hFails
      rw [hNil, List.nil_perm] at hFailures
      exact hFail (failuresOf_verdicts_eq_nil_iff.mp hFailures task hTask)
    rw [Progress.outcome, if_neg (by simpa using hSome), mergeSort_pairLE_eq hFailures]

/-- A build ends, whatever the order in which its workers take tasks and do their actions. If the
tasks keep apart, then every order of all actions comes to the same as trying the tasks one after
the other, and so does every number of workers. -/
theorem build_settled (hApart : Apart disk tasks) (hWorkers : 1 ≤ workers) :
    transpileFiles disk tasks workers = .ok (runTasks disk tasks) ∧
      CanBuild workers disk tasks (runTasks disk tasks) ∧
      Acc (fun next pool => Pool.Step workers pool next) (Pool.start disk tasks) ∧
      (∀ pool, Pool.Reaches workers (Pool.start disk tasks) pool →
        (∃ results, pool.Ended results) ∨ ∃ next, Pool.Step workers pool next) ∧
      ∀ progress, CanBuild workers disk tasks progress → Settled disk tasks progress := by
  refine ⟨?_, canBuild_of_perm (.refl tasks) hWorkers, Pool.acc workers _,
    fun pool _ => Pool.exists_step hWorkers pool,
    fun progress hBuild => hBuild.settled hApart hWorkers⟩
  rw [transpileFiles, if_neg (by omega)]

end Settled

/-! ### Builds in one directory -/

/-- An empty source has an empty output. -/
theorem transpilePath_empty {disk : Disk} {path : Path} (hRead : disk.read path = .ok []) :
    transpilePath disk path none = (.ok "", []) := by
  have hSource : readSource disk path = .ok "" := by
    rw [readSource, hRead]
    rfl
  have hOutput : goSource "" none = .ok "" := by decide +kernel
  have hEvents : (transpile "" none).events = [] := by decide +kernel
  rw [transpilePath, hSource]
  simp only [hOutput, hEvents]
  rfl

/-- What a task does whose source is empty. -/
theorem runTask_empty {disk : Disk} {task : Task} (hRead : disk.read task.source = .ok []) :
    runTask disk task =
      match writeBelow task.target [] disk with
      | .error error disk => (.error (.file error), disk, [])
      | .ok () disk => (.ok (), disk, [.wroteTarget task.target.text 0]) := by
  have hBytes : Text.encodeUtf8 "" = [] := by decide +kernel
  rw [runTask, transpilePath_empty hRead]
  simp only [hBytes, List.nil_append]
  cases writeBelow task.target [] disk <;> rfl

/-- A directory with one source and another file. -/
def oneSource : Disk := ⟨.dir [("w", .dir [("s.godsl", .file []), ("f", .file [])])], ["w"]⟩

def taskHere (source target : List String) : Task := ⟨⟨.relative, source⟩, ⟨.relative, target⟩⟩

/-- Two tasks that make one directory, and a third without a source. -/
def threeTasks : List Task :=
  [taskHere ["s.godsl"] ["o", "s.go"], taskHere ["..", "w", "s.godsl"] ["o", "p", "s.go"],
    taskHere ["q.godsl"] ["q.go"]]

theorem apart_threeTasks : Apart oneSource threeTasks where
  targets := by decide
  sources := by decide
  here := rfl
  plain := by decide
  tidy := by decide
  missing := by decide

/-- One of these tasks fails, and the other two are done in any order. -/
theorem build_settled_threeTasks : Apart oneSource threeTasks ∧ (1 : Int) ≤ 2 ∧
    (verdicts oneSource threeTasks).map Prod.snd =
      [.ok (), .ok (), .error (.file (.ofPath .noEntry ⟨.relative, ["q.godsl"]⟩))] ∧
    ∀ progress, CanBuild 2 oneSource threeTasks progress →
      Settled oneSource threeTasks progress := by
  have hFirst : (runTask oneSource (taskHere ["s.godsl"] ["o", "s.go"])).1 = .ok () := by
    rw [runTask_empty (by rfl)]
    rfl
  have hSecond : (runTask oneSource
      (taskHere ["..", "w", "s.godsl"] ["o", "p", "s.go"])).1 = .ok () := by
    rw [runTask_empty (by rfl)]
    rfl
  have hThird : (runTask oneSource (taskHere ["q.godsl"] ["q.go"])).1 =
      .error (.file (.ofPath .noEntry ⟨.relative, ["q.godsl"]⟩)) := rfl
  refine ⟨apart_threeTasks, by decide, ?_,
    (build_settled apart_threeTasks (by decide)).2.2.2.2⟩
  simp only [threeTasks, verdicts, List.map_cons, List.map_nil, hFirst, hSecond, hThird]

/-! ### Where the order matters -/

/-- How the message of a refusal starts. -/
def Errno.mark (errno : Errno) : List Char := ("[Errno " ++ toString errno.code ++ "]").toList

/-- The message of an error starts with its mark. -/
theorem FileError.mark_prefix (error : FileError) : error.errno.mark <+: error.message.toList := by
  refine ⟨(" " ++ error.errno.reason ++ ": " ++ error.shown).toList, ?_⟩
  rw [Errno.mark, ← String.toList_append, FileError.message]
  simp only [String.append_assoc]
  rfl

/-- Marks tell the errors apart. -/
theorem Errno.eq_of_mark {first second : Errno} (hMark : first.mark <+: second.mark) :
    first = second := by
  revert hMark
  cases first <;> cases second <;> decide

/-- Messages of different refusals are different. -/
theorem FileError.errno_eq {first second : FileError} (hSame : first.message = second.message) :
    first.errno = second.errno := by
  rcases List.prefix_or_prefix_of_prefix first.mark_prefix (hSame ▸ second.mark_prefix) with
    hFirst | hSecond
  · exact Errno.eq_of_mark hFirst
  · exact (Errno.eq_of_mark hSecond).symm

/-- Equal outcomes have the same failures. -/
theorem failures_perm_of_outcome {first second : Progress}
    (hSame : first.outcome = second.outcome) : first.failures.Perm second.failures := by
  unfold Progress.outcome at hSame
  split at hSame
  · next hFirst =>
    split at hSame
    · next hSecond => rw [List.isEmpty_iff.mp hFirst, List.isEmpty_iff.mp hSecond]
    · cases hSame
  · split at hSame
    · cases hSame
    · have hSorted := (BuildError.mk.inj (Except.error.inj hSame))
      refine (List.mergeSort_perm _ pairLE).symm.trans ?_
      rw [hSorted]
      exact List.mergeSort_perm _ _

/-- The failures of two tasks that are tried one after the other. -/
theorem failures_runTasks_pair (disk : Disk) (first second : Task) :
    (runTasks disk [first, second]).failures =
      Pool.failuresOf [(first, (runTask disk first).1)] ++
        Pool.failuresOf [(second, (runTask (runTask disk first).2.1 second).1)] := by
  have hFirst := Progress.step_eq ⟨disk, [], [], []⟩ first
  have hSecond := Progress.step_eq (Progress.step ⟨disk, [], [], []⟩ first) second
  rw [hFirst.1, hFirst.2.2, List.nil_append] at hSecond
  exact hSecond.2.2

/-- Different refusals of a task are reported differently. -/
theorem failuresOf_ne {task : Task} {first second : FileError}
    (hErrno : first.errno ≠ second.errno) :
    ¬ (Pool.failuresOf [(task, .error (.file first))]).Perm
      (Pool.failuresOf [(task, .error (.file second))]) := by
  intro hPerm
  have hPair := List.perm_singleton.mp hPerm
  exact hErrno (FileError.errno_eq (Prod.mk.inj (List.cons.inj hPair).1).2)

/-- Whether a build of some tasks by two workers can come to different outcomes. -/
def OrderMatters (disk : Disk) (tasks : List Task) : Prop :=
  ∃ progress other, CanBuild 2 disk tasks progress ∧ CanBuild 2 disk tasks other ∧
    progress.outcome ≠ other.outcome

/-- The order of two tasks matters if the verdict of one depends on whether the other one was tried
before. -/
theorem orderMatters_pair {disk : Disk} {first second : Task} {early late : Verdict}
    (hEarly : (runTask disk first).1 = early)
    (hLate : (runTask (runTask disk second).2.1 first).1 = late)
    (hSecond : (runTask disk second).1 = .ok ())
    (hAfter : (runTask (runTask disk first).2.1 second).1 = .ok ())
    (hFailures : ¬ (Pool.failuresOf [(first, early)]).Perm (Pool.failuresOf [(first, late)])) :
    OrderMatters disk [first, second] := by
  refine ⟨_, _, canBuild_of_perm (.refl _) (by decide),
    canBuild_of_perm (.swap first second []) (by decide), fun hSame => hFailures ?_⟩
  have hPerm := failures_perm_of_outcome hSame
  rw [failures_runTasks_pair, failures_runTasks_pair, hEarly, hLate, hSecond, hAfter] at hPerm
  simpa [Pool.failuresOf] using hPerm

/-- A task that makes a directory. -/
def maker : Task := taskHere ["s.godsl"] ["d", "u.go"]

/-- A task whose source is beyond that directory. -/
def climber : Task := taskHere ["d", "..", "s.godsl"] ["o", "t.go"]

/-- A task whose target is beyond that directory, and below a file. -/
def detour : Task := taskHere ["s.godsl"] ["d", "..", "f", "y", "t.go"]

/-- A task that writes a file in the place of that directory. -/
def blocker : Task := taskHere ["s.godsl"] ["d"]

/-- A task whose source is missing, and so is the directory that it would be in. -/
def seeker : Task := taskHere ["d", "r.godsl"] ["o", "t.go"]

theorem maker_run : runTask oneSource maker = (.ok (),
    ⟨.dir [("w", .dir [("s.godsl", .file []), ("f", .file []), ("d", .dir [("u.go", .file [])])])],
      ["w"]⟩, [.wroteTarget maker.target.text 0]) := by
  rw [runTask_empty (by rfl)]
  rfl

theorem blocker_run : runTask oneSource blocker = (.ok (),
    ⟨.dir [("w", .dir [("s.godsl", .file []), ("f", .file []), ("d", .file [])])], ["w"]⟩,
      [.wroteTarget blocker.target.text 0]) := by
  rw [runTask_empty (by rfl)]
  rfl

/-- A path through a directory that another task makes leads somewhere only afterwards. -/
theorem climber_order : OrderMatters oneSource [climber, maker] := by
  have hEarly : runTask oneSource climber =
      (.error (.file (.ofPath .noEntry climber.source)), oneSource, []) := rfl
  have hLate : (runTask (runTask oneSource maker).2.1 climber).1 = .ok () := by
    rw [maker_run, runTask_empty (by rfl)]
    rfl
  refine orderMatters_pair (congrArg _ hEarly) hLate ?_ ?_ ?_
  · rw [maker_run]
  · rw [hEarly, maker_run]
  · simp [Pool.failuresOf]

/-- A source that is missing is refused differently once a file stands in the place of its
directory. -/
theorem seeker_order : OrderMatters oneSource [seeker, blocker] := by
  have hEarly : runTask oneSource seeker =
      (.error (.file (.ofPath .noEntry seeker.source)), oneSource, []) := rfl
  have hLate : (runTask (runTask oneSource blocker).2.1 seeker).1 =
      .error (.file (.ofPath .notDir seeker.source)) := by
    rw [blocker_run]
    rfl
  refine orderMatters_pair (congrArg _ hEarly) hLate ?_ ?_ (failuresOf_ne Errno.noConfusion)
  · rw [blocker_run]
  · rw [hEarly, blocker_run]

/-- A detour over a directory is refused differently once another task has made it. -/
theorem detour_order : OrderMatters oneSource [detour, maker] := by
  have hEarly : runTask oneSource detour =
      (.error (.file (.ofPath .exists ⟨.relative, ["d", "..", "f"]⟩)),
        ⟨.dir [("w", .dir [("s.godsl", .file []), ("f", .file []), ("d", .dir [])])], ["w"]⟩,
        []) := by
    rw [runTask_empty (by rfl)]
    rfl
  have hLate : (runTask (runTask oneSource maker).2.1 detour).1 =
      .error (.file (.ofPath .notDir ⟨.relative, ["d", "..", "f", "y"]⟩)) := by
    rw [maker_run, runTask_empty (by rfl)]
    rfl
  refine orderMatters_pair (congrArg _ hEarly) hLate ?_ ?_ (failuresOf_ne Errno.noConfusion)
  · rw [maker_run]
  · rw [hEarly, runTask_empty (by rfl)]
    rfl

/-- What becomes of separate tasks can depend on their order. It does where a source is to be
reached by way of a directory that another task makes, where a source is missing below the target
of another task, and where a target is to be reached by way of a directory that another task
makes. -/
theorem outcome_depends_on_order :
    (Separate oneSource [climber, maker] ∧ OrderMatters oneSource [climber, maker]) ∧
      (Separate oneSource [seeker, blocker] ∧ OrderMatters oneSource [seeker, blocker]) ∧
      Separate oneSource [detour, maker] ∧ OrderMatters oneSource [detour, maker] := by
  refine ⟨⟨⟨by decide, by decide⟩, climber_order⟩, ⟨⟨by decide, by decide⟩, seeker_order⟩,
    ⟨by decide, by decide⟩, detour_order⟩

end TryGo.Build
