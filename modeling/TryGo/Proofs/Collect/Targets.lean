import TryGo.Proofs.Collect.Sources

/-! Where the sources of a build are written to. A build directory mirrors the directory of the
sources, with a new ending for each name. Two sources can share a target in one case only, and a
target can be in the way of another one in one case only; both are told from the sources. -/
namespace TryGo.Build

/-- Whether a path goes on from another one. -/
def Path.Above (above path : Path) : Prop :=
  ∃ name rest, path = ⟨above.anchor, above.parts ++ name :: rest⟩

def outputName (name : String) : String := stemOf name ++ ".go"

def outputOf (buildDir : Path) (root location : Location) : Path :=
  let below := location.drop root.length
  buildDir.join ⟨.relative, below.dropLast ++ [outputName (below.getLast?.getD "")]⟩

/-! ### Names of sources and outputs -/

/-- A name with a suffix is a stem with that suffix behind it. -/
theorem hasSuffix_iff {suffix name : String} :
    hasSuffix suffix name = true ↔ ∃ stem, name = stem ++ suffix := by
  rw [hasSuffix, List.isSuffixOf_iff_suffix]
  constructor
  · rintro ⟨stem, hStem⟩
    exact ⟨String.ofList stem, String.toList_inj.mp (by simp [hStem])⟩
  · rintro ⟨stem, rfl⟩
    exact ⟨stem.toList, by simp⟩

/-- A name that is only an ending keeps it. -/
theorem stemOf_source (stem : String) :
    stemOf (stem ++ ".godsl") = if stem = "" then ".godsl" else stem := by
  have hEnding : (stem ++ ".godsl").toList.reverse.takeWhile (· != '.') = "lsdog".toList := by
    simp
  simp only [stemOf, hEnding]
  by_cases hStem : stem = "" <;> simp [hStem]

/-- Two sources have outputs of one name if they have one name themselves, or if one of them is
only an ending and the other has it twice. -/
theorem outputName_eq_iff {first second : String} (hFirst : hasSuffix ".godsl" first = true)
    (hSecond : hasSuffix ".godsl" second = true) :
    outputName first = outputName second ↔
      first = second ∨ (first = ".godsl" ∧ second = ".godsl.godsl") ∨
        (first = ".godsl.godsl" ∧ second = ".godsl") := by
  have hTwice : outputName ".godsl" = outputName ".godsl.godsl" := by
    have hOnce := stemOf_source ""
    have hAgain := stemOf_source ".godsl"
    simp_all [outputName]
  constructor
  · intro hSame
    obtain ⟨stem, rfl⟩ := hasSuffix_iff.mp hFirst
    obtain ⟨other, rfl⟩ := hasSuffix_iff.mp hSecond
    have hStems : stemOf (stem ++ ".godsl") = stemOf (other ++ ".godsl") := by
      simpa [outputName] using hSame
    rw [stemOf_source, stemOf_source] at hStems
    by_cases hStem : stem = "" <;> by_cases hOther : other = "" <;>
      simp only [hStem, hOther, if_true, if_false] at hStems
    · exact .inl (by rw [hStem, hOther])
    · exact .inr (.inl ⟨by rw [hStem]; rfl, by rw [← hStems]; rfl⟩)
    · exact .inr (.inr ⟨by rw [hStems]; rfl, by rw [hOther]; rfl⟩)
    · exact .inl (by rw [hStems])
  · rintro (rfl | ⟨rfl, rfl⟩ | ⟨rfl, rfl⟩)
    · rfl
    · exact hTwice
    · exact hTwice.symm

/-- The name of an output ends in the last letter of its suffix. -/
theorem getLast?_outputName (name : String) : (outputName name).toList.getLast? = some 'o' := by
  simp [outputName]

/-- No output is a source again. -/
theorem outputName_ne_source {name : String} (hName : hasSuffix ".godsl" name = true)
    (source : String) : outputName source ≠ name := by
  rintro rfl
  obtain ⟨stem, hStem⟩ := hasSuffix_iff.mp hName
  have hLast := getLast?_outputName source
  simp [hStem] at hLast

/-! ### Paths of outputs -/

section Output

variable {buildDir : Path} {root above below : Location} {name other : String}

/-- The output of a source lies as deep below the build directory as the source below the root. -/
theorem outputOf_source :
    outputOf buildDir root (root ++ above ++ [name]) =
      ⟨buildDir.anchor, buildDir.parts ++ (above ++ [outputName name])⟩ := by
  simp [outputOf, Path.join]

/-- Sources share an output only within one directory, and only if their names become the same. -/
theorem outputOf_eq_iff :
    outputOf buildDir root (root ++ above ++ [name]) =
        outputOf buildDir root (root ++ below ++ [other]) ↔
      above = below ∧ outputName name = outputName other := by
  rw [outputOf_source, outputOf_source]
  simp only [Path.mk.injEq, true_and, List.append_cancel_left_eq]
  constructor
  · intro hSame
    obtain ⟨hAbove, hName⟩ := List.append_inj' hSame rfl
    exact ⟨hAbove, List.singleton_inj.mp hName⟩
  · rintro ⟨rfl, hName⟩
    rw [hName]

/-- An output is in the way of another one if it has the name of a directory that the other one
is in. -/
theorem outputOf_above_iff :
    (outputOf buildDir root (root ++ above ++ [name])).Above
        (outputOf buildDir root (root ++ below ++ [other])) ↔
      ∃ rest, below = above ++ outputName name :: rest := by
  rw [outputOf_source, outputOf_source]
  simp only [Path.Above, Path.mk.injEq, true_and, List.append_assoc, List.append_cancel_left_eq,
    List.singleton_append]
  constructor
  · rintro ⟨next, rest, hBelow⟩
    obtain ⟨front, last, hRest⟩ :=
      (List.eq_nil_or_concat' (next :: rest)).resolve_left (List.cons_ne_nil _ _)
    rw [hRest, ← List.cons_append, ← List.append_assoc] at hBelow
    exact ⟨front, (List.append_inj' hBelow rfl).1⟩
  · rintro ⟨rest, rfl⟩
    obtain ⟨next, others, hRest⟩ := List.exists_cons_of_ne_nil
      (List.append_ne_nil_of_right_ne_nil rest (List.cons_ne_nil (outputName other) []))
    exact ⟨next, others, by simp [hRest]⟩

end Output

/-! ### Targets of a build -/

section Collect

variable {disk : Disk} {config : Config} {root : Location}

/-- The sources of a build with what they are written to. -/
theorem collect_eq (disk : Disk) (config : Config) (root : Path)
    (hTarget : config.targetSuffix = ".go") :
    collect disk config root =
      .ok ((sourcesBelow disk config (root.locate disk.here)).map fun location =>
        ⟨.ofLocation location,
          outputOf (config.resolvedBuildDir disk.here) (root.locate disk.here) location⟩) := by
  have hTask : ∀ location, taskOf config (config.resolvedBuildDir disk.here)
      (root.locate disk.here) location = .ok ⟨.ofLocation location,
        outputOf (config.resolvedBuildDir disk.here) (root.locate disk.here) location⟩ := by
    intro location
    have hName : ∀ name, withSuffix ".go" name = .ok (outputName name) := fun _ => rfl
    have hPoint : ∀ name, outputName name ≠ "." := by
      intro name hSame
      have hLast := getLast?_outputName name
      simp [hSame] at hLast
    simp [taskOf, hTarget, hName, hPoint, outputOf]
  simp only [collect, funext hTask]
  exact List.mapM_pure

/-- Outputs are shared exactly if some directory holds a source that is named by the suffix alone
and one that is named by the suffix twice. -/
theorem nodup_outputs_iff (buildDir : Path) (hTree : disk.tree.Named)
    (hSource : config.sourceSuffix = ".godsl") :
    ((sourcesBelow disk config root).map (outputOf buildDir root)).Nodup ↔
      ∀ above, ¬ (above ++ [".godsl"] ∈ sourcesBelow disk config root ∧
        above ++ [".godsl.godsl"] ∈ sourcesBelow disk config root) := by
  rw [List.nodup_map_iff_inj_on (nodup_sourcesBelow hTree)]
  constructor
  · rintro hInj above ⟨hOnce, hTwice⟩
    obtain ⟨below, name, hBelow, hName⟩ := exists_of_mem_sourcesBelow hTree hOnce
    obtain ⟨rfl, hSame⟩ := List.append_inj' hBelow rfl
    have hOutputs : outputName ".godsl" = outputName ".godsl.godsl" :=
      (outputName_eq_iff (by decide) (by decide)).mpr (.inr (.inl ⟨rfl, rfl⟩))
    have hClash := hInj _ hOnce _ hTwice (outputOf_eq_iff.mpr ⟨rfl, hOutputs⟩)
    simp at hClash
  · intro hNever first hFirst second hSecond hSame
    obtain ⟨above, name, rfl, hName⟩ := exists_of_mem_sourcesBelow hTree hFirst
    obtain ⟨below, other, rfl, hOther⟩ := exists_of_mem_sourcesBelow hTree hSecond
    rw [hSource] at hName hOther
    obtain ⟨rfl, hOutputs⟩ := outputOf_eq_iff.mp hSame
    rcases (outputName_eq_iff hName hOther).mp hOutputs with rfl | ⟨rfl, rfl⟩ | ⟨rfl, rfl⟩
    · rfl
    · exact absurd ⟨hFirst, hSecond⟩ (hNever _)
    · exact absurd ⟨hSecond, hFirst⟩ (hNever _)

/-- An output lies in the place of a directory of another exactly if a source stands beside the
directory of another one and that directory has the name of its output. -/
theorem exists_output_above_iff (buildDir : Path) (hTree : disk.tree.Named)
    (hSource : config.sourceSuffix = ".godsl") :
    (∃ first ∈ sourcesBelow disk config root, ∃ second ∈ sourcesBelow disk config root,
        (outputOf buildDir root first).Above (outputOf buildDir root second)) ↔
      ∃ above name rest, above ++ [name] ∈ sourcesBelow disk config root ∧
        above ++ outputName name :: rest ∈ sourcesBelow disk config root := by
  constructor
  · rintro ⟨first, hFirst, second, hSecond, hAbove⟩
    obtain ⟨above, name, rfl, hName⟩ := exists_of_mem_sourcesBelow hTree hFirst
    obtain ⟨below, other, rfl, hOther⟩ := exists_of_mem_sourcesBelow hTree hSecond
    obtain ⟨rest, rfl⟩ := outputOf_above_iff.mp hAbove
    exact ⟨root ++ above, name, rest ++ [other], hFirst, by simpa using hSecond⟩
  · rintro ⟨above, name, rest, hFirst, hSecond⟩
    refine ⟨_, hFirst, _, hSecond, ?_⟩
    obtain ⟨front, first, hFront, hName⟩ := exists_of_mem_sourcesBelow hTree hFirst
    obtain ⟨below, second, hBelow, hOther⟩ := exists_of_mem_sourcesBelow hTree hSecond
    obtain ⟨rfl, hSame⟩ := List.append_inj' hFront rfl
    obtain rfl := List.singleton_inj.mp hSame
    rw [hBelow, outputOf_above_iff]
    -- The second source is not the output itself, which has another ending.
    rcases List.eq_nil_or_concat' rest with rfl | ⟨others, last, rfl⟩
    · have hEnds := List.append_inj' hBelow rfl
      rw [hSource] at hOther
      exact absurd (List.singleton_inj.mp hEnds.2) (outputName_ne_source hOther name)
    · refine ⟨others, ?_⟩
      have hEnds : root ++ (front ++ outputName name :: others) ++ [last] =
          root ++ below ++ [second] := by simpa using hBelow
      exact (List.append_cancel_left (List.append_inj' hEnds rfl).1).symm

/-- The targets of a build are all different unless some directory has the two sources whose
outputs share their name. No target stands above another one unless a source is in a directory
that has the name of an output beside it. -/
theorem collect_targets (disk : Disk) (config : Config) (root : Path)
    (hTree : disk.tree.Named) (hSource : config.sourceSuffix = ".godsl")
    (hTarget : config.targetSuffix = ".go") :
    ∃ tasks, collect disk config root = .ok tasks ∧
      tasks.map Task.source =
        (sourcesBelow disk config (root.locate disk.here)).map Path.ofLocation ∧
      ((tasks.map Task.target).Nodup ↔
        ∀ above, ¬ (above ++ [".godsl"] ∈ sourcesBelow disk config (root.locate disk.here) ∧
          above ++ [".godsl.godsl"] ∈ sourcesBelow disk config (root.locate disk.here))) ∧
      ((∃ first ∈ tasks, ∃ second ∈ tasks, first.target.Above second.target) ↔
        ∃ above name rest,
          above ++ [name] ∈ sourcesBelow disk config (root.locate disk.here) ∧
          above ++ outputName name :: rest ∈
            sourcesBelow disk config (root.locate disk.here)) := by
  refine ⟨_, collect_eq disk config root hTarget, by simp [Function.comp_def], ?_, ?_⟩
  · rw [List.map_map]
    exact nodup_outputs_iff _ hTree hSource
  · simp only [List.mem_map, exists_exists_and_eq_and]
    exact exists_output_above_iff _ hTree hSource

/-- A directory with the two sources whose outputs share their name. -/
def sharedDisk : Disk :=
  ⟨.dir [("w", .dir [(".godsl", .file []), (".godsl.godsl", .file [])])], ["w"]⟩

/-- Both files of the directory are sources. -/
theorem sourcesBelow_sharedDisk :
    sourcesBelow sharedDisk .default ["w"] = [["w", ".godsl"], ["w", ".godsl.godsl"]] := by
  have hNames : [".godsl", ".godsl.godsl"].mergeSort (fun a b => decide (a ≤ b)) =
      [".godsl", ".godsl.godsl"] := List.mergeSort_of_pairwise (by decide)
  simp [sourcesBelow, sharedDisk, FileTree.get?, filesBelow, filesBelowEach, fileNames,
    sortByName, FileTree.isDir, Config.default, hasSuffix, hNames, List.isSuffixOf]

theorem sharedDisk_named : sharedDisk.tree.Named := by decide

/-- The tasks of two sources may have one target. -/
theorem collect_targets_sharedDisk :
    ∃ tasks, collect sharedDisk .default (.ofString ".") = .ok tasks ∧
      ¬ (tasks.map Task.target).Nodup := by
  obtain ⟨tasks, hCollect, _, hNodup, _⟩ :=
    collect_targets sharedDisk .default (.ofString ".") sharedDisk_named rfl rfl
  refine ⟨tasks, hCollect, fun hDifferent => hNodup.mp hDifferent ["w"] ?_⟩
  change _ ∈ sourcesBelow sharedDisk .default ["w"] ∧ _ ∈ sourcesBelow sharedDisk .default ["w"]
  simp [sourcesBelow_sharedDisk]

/-- A directory with a source beside a directory that has the name of its output. -/
def besideDisk : Disk :=
  ⟨.dir [("w", .dir [("a.godsl", .file []), ("a.go", .dir [("b.godsl", .file [])])])], ["w"]⟩

/-- The directory is walked although its name looks like that of an output. -/
theorem sourcesBelow_besideDisk :
    sourcesBelow besideDisk .default ["w"] = [["w", "a.godsl"], ["w", "a.go", "b.godsl"]] := by
  have hSearched :
      isSkipped .default (Config.default.resolvedBuildDir ["w"]) ["w", "a.go"] = false := by rfl
  simp [sourcesBelow, besideDisk, FileTree.get?, filesBelow, filesBelowEach, fileNames,
    sortByName, FileTree.isDir, hSearched, show Config.default.sourceSuffix = ".godsl" from rfl,
    hasSuffix, List.isSuffixOf]

/-- Two sources are written to one file, and one source is to be a file where another one needs a
directory. -/
theorem collect_clashes :
    collect sharedDisk .default (.ofString ".") =
      .ok [⟨.ofString "/w/.godsl", .ofString "/w/build/.godsl.go"⟩,
        ⟨.ofString "/w/.godsl.godsl", .ofString "/w/build/.godsl.go"⟩] ∧
    collect besideDisk .default (.ofString ".") =
      .ok [⟨.ofString "/w/a.godsl", .ofString "/w/build/a.go"⟩,
        ⟨.ofString "/w/a.go/b.godsl", .ofString "/w/build/a.go/b.go"⟩] := by
  rw [collect_eq _ _ _ rfl, collect_eq _ _ _ rfl]
  change Except.ok (List.map _ (sourcesBelow sharedDisk .default ["w"])) = _ ∧
    Except.ok (List.map _ (sourcesBelow besideDisk .default ["w"])) = _
  rw [sourcesBelow_sharedDisk, sourcesBelow_besideDisk]
  exact ⟨rfl, rfl⟩

end Collect

end TryGo.Build
