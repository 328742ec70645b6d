import TryGo.Proofs.Collect.Exact
import Mathlib.Data.List.Pairwise

/-! The order of the tasks of a build. The sources of a directory come before those of its
subdirectories, whatever their names are. So the tasks are in the order of their paths only as long
as no source stands beside a directory with sources and a smaller name. -/
namespace TryGo.Build

/-! ### The order of names and the order of the search -/

/-- What is found before something comes before it in the order of the names, except that a file
comes before what is in a directory beside it with a smaller name. -/
theorem FoundBefore.lt_or {first second : Location} (hFound : FoundBefore first second) :
    first < second ∨ ∃ above name dir next rest,
      first = above ++ [name] ∧ second = above ++ dir :: next :: rest ∧ dir < name := by
  induction hFound with
  | @fileFirst name dir next rest =>
    rcases lt_trichotomy name dir with hLess | rfl | hMore
    · exact .inl (List.cons_lt_cons_iff.mpr (.inl hLess))
    · exact .inl (List.cons_lt_cons_iff.mpr (.inr ⟨rfl, List.nil_lt_cons _ _⟩))
    · exact .inr ⟨[], name, dir, next, rest, rfl, rfl, hMore⟩
  | files hNames => exact .inl (List.cons_lt_cons_iff.mpr (.inl hNames))
  | dirs hDirs => exact .inl (List.cons_lt_cons_iff.mpr (.inl hDirs))
  | @inDir dir first second _ ih =>
    rcases ih with hLess | ⟨above, name, other, next, rest, rfl, rfl, hMore⟩
    · exact .inl (List.cons_lt_cons_iff.mpr (.inr ⟨rfl, hLess⟩))
    · exact .inr ⟨dir :: above, name, other, next, rest, rfl, rfl, hMore⟩

/-- Nothing in a directory is found before the files beside it. -/
theorem not_foundBefore_file {above rest : Location} {name dir next : String} :
    ¬ FoundBefore (above ++ dir :: next :: rest) (above ++ [name]) := by
  induction above with
  | nil =>
    intro hFound
    cases hFound with
    | inDir hBelow => cases hBelow
  | cons first others ih =>
    intro hFound
    generalize hFirst : first :: others ++ dir :: next :: rest = found at hFound
    generalize hSecond : first :: others ++ [name] = later at hFound
    cases hFound with
    | fileFirst => simp at hFirst
    | files => simp at hFirst
    | dirs hDirs =>
      obtain ⟨rfl, -⟩ := List.cons.inj hFirst
      obtain ⟨rfl, -⟩ := List.cons.inj hSecond
      exact lt_irrefl _ hDirs
    | inDir hBelow =>
      obtain ⟨rfl, rfl⟩ := List.cons.inj hFirst
      obtain ⟨-, rfl⟩ := List.cons.inj hSecond
      exact ih hBelow

/-- Of two members of a list one comes before the other. -/
theorem rel_or_rel_of_pairwise {α : Type} {R : α → α → Prop} {members : List α}
    (hPairs : members.Pairwise R) {a b : α} (hFirst : a ∈ members) (hSecond : b ∈ members)
    (hOther : a ≠ b) : R a b ∨ R b a := by
  have hSymmetric : Std.Symm fun a b => R a b ∨ R b a := ⟨fun _ _ => Or.symm⟩
  exact (hPairs.imp Or.inl : members.Pairwise fun a b => R a b ∨ R b a).forall hFirst hSecond hOther

section Disk

variable {disk : Disk} {config : Config} {root : Location}

/-- The sources are in the order of their locations if no source has a directory with a smaller name
beside it in which there is a source. -/
theorem pairwise_lt_sourcesBelow_iff (hTree : disk.tree.Named) :
    (sourcesBelow disk config root).Pairwise (· < ·) ↔
      ∀ above name dir next rest, root ++ above ++ [name] ∈ sourcesBelow disk config root →
        root ++ above ++ dir :: next :: rest ∈ sourcesBelow disk config root → ¬ dir < name := by
  have hOrder : (sourcesBelow disk config root).Pairwise _ := pairwise_sourcesBelow hTree
  constructor
  · intro hSorted above name dir next rest hFile hBelow hLess
    have hBefore : root ++ above ++ dir :: next :: rest < root ++ above ++ [name] :=
      List.append_left_lt (List.cons_lt_cons_iff.mpr (.inl hLess))
    rcases rel_or_rel_of_pairwise (hSorted.and hOrder) hFile hBelow hBefore.ne' with
      ⟨hAfter, -⟩ | ⟨-, first, second, hFirst, hSecond, hFound⟩
    · exact lt_asymm hBefore hAfter
    · rw [List.append_assoc, List.append_cancel_left_eq] at hFirst hSecond
      rw [← hFirst, ← hSecond] at hFound
      exact not_foundBefore_file hFound
  · intro hBeside
    refine hOrder.imp_of_mem ?_
    rintro _ _ hFile hBelow ⟨first, second, rfl, rfl, hFound⟩
    rcases hFound.lt_or with hLess | ⟨above, name, dir, next, rest, rfl, rfl, hMore⟩
    · exact List.append_left_lt hLess
    · rw [← List.append_assoc] at hFile hBelow
      exact absurd hMore (hBeside above name dir next rest hFile hBelow)

/-! ### The order of the tasks -/

/-- Whether a path comes before another one with the same start. Their names are compared one after
the other. -/
def Path.Before (first second : Path) : Prop :=
  first.anchor = second.anchor ∧ first.parts < second.parts

theorem exists_taskOf (config : Config) (buildDir : Path) (root : Location)
    (hSuffix : isSuffix config.targetSuffix = true) :
    ∃ task : Location → Task, ∀ location,
      taskOf config buildDir root location = .ok (task location) := by
  simp only [taskOf, withSuffix, hSuffix, if_true]
  exact ⟨_, fun location => rfl⟩

theorem source_of_taskOf {buildDir : Path} {location : Location} {task : Task}
    (hTask : taskOf config buildDir root location = .ok task) :
    task.source = .ofLocation location := by
  simp only [taskOf, withSuffix] at hTask
  split at hTask
  · cases hTask
    rfl
  · cases hTask

theorem map_source_of_mapM {buildDir : Path} {locations : List Location} {tasks : List Task}
    (hTasks : locations.mapM (taskOf config buildDir root) = .ok tasks) :
    tasks.map Task.source = locations.map Path.ofLocation := by
  induction locations generalizing tasks with
  | nil =>
    cases hTasks
    rfl
  | cons location rest ih =>
    rw [List.mapM_cons] at hTasks
    cases hFirst : taskOf config buildDir root location with
    | error error => simp [hFirst, bind, Except.bind] at hTasks
    | ok task =>
      cases hRest : rest.mapM (taskOf config buildDir root) with
      | error error => simp [hFirst, hRest, bind, Except.bind] at hTasks
      | ok others =>
        simp only [hFirst, hRest, bind, Except.bind] at hTasks
        cases hTasks
        rw [List.map_cons, List.map_cons, source_of_taskOf hFirst, ih hRest]

/-- The tasks of a build are in the order of the search, in which the sources of a directory come
before those of its subdirectories. They are in the order of the paths of their sources if and only
if no source has a directory with a smaller name beside it in which there is a source. -/
theorem collect_sorted_iff (disk : Disk) (config : Config) (root : Path)
    (hTree : disk.tree.Named) :
    (isSuffix config.targetSuffix = true → ∃ tasks, collect disk config root = .ok tasks) ∧
      ∀ tasks, collect disk config root = .ok tasks →
        ((tasks.map Task.source).Pairwise fun found later =>
          ∃ first second, found = .ofLocation (root.locate disk.here ++ first) ∧
            later = .ofLocation (root.locate disk.here ++ second) ∧ FoundBefore first second) ∧
        ((tasks.map Task.source).Pairwise Path.Before ↔
          ∀ above name dir next rest,
            IsSource disk config (root.locate disk.here)
              (root.locate disk.here ++ above ++ [name]) →
            IsSource disk config (root.locate disk.here)
              (root.locate disk.here ++ above ++ dir :: next :: rest) → ¬ dir < name) := by
  refine ⟨fun hSuffix => ?_, fun tasks hTasks => ?_⟩
  · obtain ⟨task, hTask⟩ := exists_taskOf config (config.resolvedBuildDir disk.here)
      (root.locate disk.here) hSuffix
    simp only [collect, funext hTask]
    exact ⟨_, List.mapM_pure⟩
  · rw [map_source_of_mapM hTasks, List.pairwise_map, List.pairwise_map]
    constructor
    · refine (pairwise_sourcesBelow hTree).imp ?_
      rintro _ _ ⟨first, second, rfl, rfl, hFound⟩
      exact ⟨first, second, rfl, rfl, hFound⟩
    · simp only [← mem_sourcesBelow_iff hTree, ← pairwise_lt_sourcesBelow_iff hTree]
      simp [Path.Before, Path.ofLocation]

theorem collect_sorted_iff_besideDisk :
    ∃ tasks, collect besideDisk .default (.ofString ".") = .ok tasks ∧
      ¬ (tasks.map Task.source).Pairwise Path.Before := by
  obtain ⟨hReturns, hOrder⟩ := collect_sorted_iff besideDisk .default (.ofString ".")
    (by decide)
  obtain ⟨tasks, hTasks⟩ := hReturns rfl
  refine ⟨tasks, hTasks, fun hSorted => ?_⟩
  refine (hOrder tasks hTasks).2.mp hSorted [] "a.godsl" "a.go" "b.godsl" [] ?_ ?_ (by decide)
  · exact ⟨[], "a", [], rfl, rfl, by simp⟩
  · refine ⟨["a.go"], "b", [], rfl, rfl, fun front dir hFront => ?_⟩
    obtain ⟨rfl, rfl⟩ : front = [] ∧ dir = "a.go" := by
      cases front <;> simp_all
    exact ⟨by decide, by decide⟩

/-- A directory with a source beside a subdirectory that has a smaller name. -/
def commandDisk : Disk :=
  ⟨.dir [("w", .dir [("main.godsl", .file []), ("cmd", .dir [("tool.godsl", .file [])])])], ["w"]⟩

/-- The file comes first, though the path of what is in the directory is smaller. -/
theorem collect_unsorted :
    ∃ tasks, collect commandDisk .default (.ofString ".") = .ok tasks ∧
      tasks.map Task.source = [.ofString "/w/main.godsl", .ofString "/w/cmd/tool.godsl"] ∧
      ¬ (tasks.map Task.source).Pairwise Path.Before := by
  have hSources : sourcesBelow commandDisk .default ["w"] =
      [["w", "main.godsl"], ["w", "cmd", "tool.godsl"]] := by
    have hSearched :
        isSkipped .default (Config.default.resolvedBuildDir ["w"]) ["w", "cmd"] = false := by rfl
    simp [sourcesBelow, commandDisk, FileTree.get?, filesBelow, filesBelowEach, fileNames,
      sortByName, FileTree.isDir, hSearched, show Config.default.sourceSuffix = ".godsl" from rfl,
      hasSuffix, List.isSuffixOf]
  refine ⟨_, collect_eq _ _ _ rfl, ?_⟩
  rw [List.map_map]
  change (sourcesBelow commandDisk .default ["w"]).map Path.ofLocation = _ ∧
    ¬ ((sourcesBelow commandDisk .default ["w"]).map Path.ofLocation).Pairwise Path.Before
  rw [hSources]
  refine ⟨rfl, fun hSorted => ?_⟩
  have hBefore : ["w", "main.godsl"] < ["w", "cmd", "tool.godsl"] :=
    ((List.pairwise_cons.mp hSorted).1 _ List.mem_cons_self).2
  exact absurd hBefore (by decide)

end Disk

end TryGo.Build
