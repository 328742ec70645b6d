import TryGo.Proofs.Collect.Targets
import Mathlib.Data.List.TakeWhile

/-! The sources of a build told without the search for them: they are the files below the root that
have the right ending and are in no directory that is left out. Each of them is written to the
place that it has below the root, under a name with a new suffix. -/
namespace TryGo.Build

/-! ### Suffixes of names -/

/-- The stem and the suffix of a name. The suffix starts at the last point of the name. A point at
either end of the name starts none, and then all of the name is its stem. -/
inductive NameParts : String → String → Prop where
  | suffixed {stem ending : String} (hStem : stem ≠ "") (hEnding : ending ≠ "")
      (hLast : '.' ∉ ending.toList) : NameParts stem ("." ++ ending)
  | plain {name : String}
      (hNone : ∀ stem ending, name = stem ++ "." ++ ending → '.' ∉ ending.toList →
        stem = "" ∨ ending = "") : NameParts name ""

/-- A name is cut at its last point, if anything stands on both sides of it. -/
theorem stemOf_cut {stem ending : String} (hLast : '.' ∉ ending.toList) :
    stemOf (stem ++ "." ++ ending) =
      if stem = "" ∨ ending = "" then stem ++ "." ++ ending else stem := by
  have hChars : (stem ++ "." ++ ending).toList = stem.toList ++ '.' :: ending.toList := by simp
  have hEnding : (stem ++ "." ++ ending).toList.reverse.takeWhile (· != '.') =
      ending.toList.reverse := by
    have hPart : ∀ c ∈ ending.toList.reverse, (c != '.') = true := by
      intro c hMem
      simpa using fun hPoint : c = '.' => hLast (List.mem_reverse.mp (hPoint ▸ hMem))
    rw [hChars, List.reverse_append, List.reverse_cons, List.append_assoc,
      List.takeWhile_append_of_pos hPart]
    simp
  have hLength : stem.toList.length + (ending.toList.length + 1) - ending.toList.length - 1 =
      stem.toList.length := by omega
  rw [stemOf]
  simp only [hEnding]
  rw [hChars]
  by_cases hStem : stem = ""
  · simp [hStem]
  · by_cases hNone : ending = ""
    · simp [hNone]
    · have hShorter : ending.toList.length ≠ stem.toList.length + (ending.toList.length + 1) := by
        omega
      simp [hStem, hNone, hLength, hShorter]

theorem exists_cut {name : String} (hPoint : '.' ∈ name.toList) :
    ∃ stem ending, name = stem ++ "." ++ ending ∧ '.' ∉ ending.toList := by
  obtain ⟨ending, stem, hReversed, hLast⟩ :=
    List.eq_append_cons_of_mem (List.mem_reverse.mpr hPoint)
  refine ⟨.ofList stem.reverse, .ofList ending.reverse, String.toList_inj.mp ?_, by simpa using hLast⟩
  simpa using congrArg List.reverse hReversed

theorem stemOf_of_no_point {name : String} (hPoint : '.' ∉ name.toList) : stemOf name = name := by
  have hEnding : name.toList.reverse.takeWhile (· != '.') = name.toList.reverse := by
    rw [List.takeWhile_eq_self_iff]
    intro c hMem
    simpa using fun hSame : c = '.' => hPoint (List.mem_reverse.mp (hSame ▸ hMem))
  simp [stemOf, hEnding]

/-- A name that is its own stem has no suffix. -/
theorem nameParts_plain {name : String} (hStem : stemOf name = name) : NameParts name "" := by
  refine .plain fun stem ending hName hLast => ?_
  by_contra hParts
  rw [hName, stemOf_cut hLast, if_neg hParts] at hStem
  have hLength := congrArg (fun text : String => text.toList.length) hStem
  simp at hLength

/-- What is kept of a name when its suffix is replaced is its stem. -/
theorem exists_nameParts (name : String) :
    ∃ suffix, name = stemOf name ++ suffix ∧ NameParts (stemOf name) suffix := by
  by_cases hPlain : stemOf name = name
  · rw [hPlain]
    exact ⟨"", by simp, nameParts_plain hPlain⟩
  · have hPoint : '.' ∈ name.toList := by
      by_contra hNone
      exact hPlain (stemOf_of_no_point hNone)
    obtain ⟨stem, ending, rfl, hLast⟩ := exists_cut hPoint
    rw [stemOf_cut hLast] at hPlain ⊢
    split at hPlain
    · exact absurd rfl hPlain
    · next hParts =>
      rw [if_neg hParts]
      obtain ⟨hStem, hEnding⟩ := not_or.mp hParts
      exact ⟨"." ++ ending, String.append_assoc, .suffixed hStem hEnding hLast⟩

/-! ### What is found -/

section Tree

variable {skip : Location → Bool} {here location : Location} {tree : FileTree}
  {above : List String} {name : String} {bytes : List UInt8}

/-- A file is found if no directory on the way to it is left out. -/
theorem FileTree.Named.mem_filesBelow_of_look (hTree : tree.Named)
    (hFile : tree.look (above ++ [name]) = some (.file bytes))
    (hSearched : ∀ front dir, front ++ [dir] <+: above → skip (here ++ front ++ [dir]) = false) :
    here ++ above ++ [name] ∈ filesBelow skip here tree := by
  induction hTree generalizing here above with
  | file _ => cases above <;> simp at hFile
  | @dir entries _ _ _ ih =>
    rw [mem_filesBelow_dir]
    cases above with
    | nil =>
      refine .inl ⟨name, bytes, ?_, by simp⟩
      cases hEntry : entries.lookup name with
      | none => simp [hEntry] at hFile
      | some below =>
        obtain rfl : below = .file bytes := by
          cases below <;> simp_all [FileTree.entry]
        exact mem_of_lookup hEntry
    | cons first rest =>
      rw [List.cons_append, FileTree.look_dir_cons] at hFile
      cases hEntry : entries.lookup first with
      | none => simp [hEntry] at hFile
      | some below =>
        have hMem := mem_of_lookup hEntry
        simp only [hEntry, Option.bind_some] at hFile
        cases below with
        | file _ => cases rest <;> simp at hFile
        | dir others =>
          have hSkip : skip (here ++ [first]) = false := by
            simpa using hSearched [] first (by simp)
          refine .inr ⟨first, others, hMem, hSkip, ?_⟩
          have hFound : here ++ [first] ++ rest ++ [name] ∈
              filesBelow skip (here ++ [first]) (.dir others) := by
            refine ih _ hMem hFile fun front dir hFront => ?_
            simpa using hSearched (first :: front) dir (by simpa using hFront)
          simpa using hFound

/-- The search finds the files that no directory on the way to them hides. -/
theorem FileTree.Named.mem_filesBelow_iff (hTree : tree.Named) :
    location ∈ filesBelow skip here tree ↔
      ∃ above name bytes, location = here ++ above ++ [name] ∧
        tree.look (above ++ [name]) = some (.file bytes) ∧
        ∀ front dir, front ++ [dir] <+: above → skip (here ++ front ++ [dir]) = false := by
  constructor
  · intro hFound
    obtain ⟨below, bytes, rfl, hFile⟩ := hTree.look_of_mem_filesBelow hFound
    obtain ⟨first, rest, hBelow⟩ := hTree.exists_of_mem_filesBelow hFound
    obtain rfl := List.append_cancel_left hBelow
    obtain ⟨above, name, hNames⟩ :=
      (List.eq_nil_or_concat' (first :: rest)).resolve_left (List.cons_ne_nil _ _)
    rw [hNames] at hFound hFile ⊢
    refine ⟨above, name, bytes, by simp, hFile, ?_⟩
    rintro front dir ⟨others, rfl⟩
    obtain ⟨top, middle, hFront⟩ := List.exists_cons_of_ne_nil
      (List.append_ne_nil_of_right_ne_nil front (List.cons_ne_nil dir []))
    obtain ⟨next, last, hOthers⟩ := List.exists_cons_of_ne_nil
      (List.append_ne_nil_of_right_ne_nil others (List.cons_ne_nil name []))
    rw [List.append_assoc, hFront]
    rw [hFront, List.append_assoc, hOthers, ← List.append_assoc] at hFound
    exact hTree.skip_eq_false hFound
  · rintro ⟨above, name, bytes, rfl, hFile, hSearched⟩
    exact hTree.mem_filesBelow_of_look hFile hSearched

end Tree

section Disk

variable {disk : Disk} {config : Config} {root location : Location}

/-- Whether a source of a build is at a location: a file with the right ending below the root. No
directory between the root and the file has the name of build directories, and the path of none is
that of the build directory. What the root itself is called, and where it is, does not matter. -/
def IsSource (disk : Disk) (config : Config) (root location : Location) : Prop :=
  ∃ above stem bytes, location = root ++ above ++ [stem ++ config.sourceSuffix] ∧
    disk.look location = some (.file bytes) ∧
    ∀ front dir, front ++ [dir] <+: above → dir ≠ config.buildDirName ∧
      Path.ofLocation (root ++ front ++ [dir]) ≠ config.resolvedBuildDir disk.here

theorem isSkipped_eq_false_iff {buildDir : Path} {front : List String} {dir : String} :
    isSkipped config buildDir (front ++ [dir]) = false ↔
      dir ≠ config.buildDirName ∧ Path.ofLocation (front ++ [dir]) ≠ buildDir := by
  simp [isSkipped]

theorem mem_sourcesBelow_iff (hTree : disk.tree.Named) :
    location ∈ sourcesBelow disk config root ↔ IsSource disk config root location := by
  rw [sourcesBelow, List.mem_filter]
  cases hRoot : disk.tree.get? root with
  | none =>
    refine iff_of_false (by simp) ?_
    rintro ⟨above, stem, bytes, rfl, hFile, -⟩
    obtain ⟨next, rest, hBelow⟩ := List.exists_cons_of_ne_nil
      (List.append_ne_nil_of_right_ne_nil above (List.cons_ne_nil (stem ++ config.sourceSuffix) []))
    rw [List.append_assoc, hBelow] at hFile
    have hDir := Disk.look_of_look_append (hFile ▸ Option.some_ne_none _)
    simp [Disk.look, FileTree.look, hRoot] at hDir
  | some tree =>
    have hBelow (above : List String) (name : String) :
        disk.look (root ++ above ++ [name]) = tree.look (above ++ [name]) := by
      rw [List.append_assoc]
      exact FileTree.look_append hRoot _
    simp only [(hTree.get? hRoot).mem_filesBelow_iff, isSkipped_eq_false_iff]
    constructor
    · rintro ⟨⟨above, name, bytes, rfl, hFile, hSearched⟩, hSuffix⟩
      obtain ⟨stem, rfl⟩ := hasSuffix_iff.mp (by simpa using hSuffix)
      exact ⟨above, stem, bytes, rfl, (hBelow above _).trans hFile, hSearched⟩
    · rintro ⟨above, stem, bytes, rfl, hFile, hSearched⟩
      exact ⟨⟨above, _, bytes, rfl, (hBelow above _).symm.trans hFile, hSearched⟩,
        by simpa using hasSuffix_iff.mpr ⟨stem, rfl⟩⟩

/-- A target is the build directory with the place that its source has below the root, where the
suffix of the source is replaced. -/
theorem exists_output (buildDir : Path) (hTree : disk.tree.Named)
    (hSource : location ∈ sourcesBelow disk config root) :
    ∃ above stem suffix, NameParts stem suffix ∧ location = root ++ above ++ [stem ++ suffix] ∧
      outputOf buildDir root location = buildDir.join ⟨.relative, above ++ [stem ++ ".go"]⟩ := by
  obtain ⟨above, name, rfl, -⟩ := exists_of_mem_sourcesBelow hTree hSource
  obtain ⟨suffix, hName, hParts⟩ := exists_nameParts name
  refine ⟨above, stemOf name, suffix, hParts, by rw [← hName], ?_⟩
  rw [outputOf_source]
  rfl

/-- The sources of a build are the files of the right ending below the root that are in no directory
of a build, each of them once. Each target is in the build directory, where the source is below the
root, under the name of the source with the suffix replaced. -/
theorem collect_exact (disk : Disk) (config : Config) (root : Path) (hTree : disk.tree.Named)
    (hTarget : config.targetSuffix = ".go") :
    ∃ tasks, collect disk config root = .ok tasks ∧
      (tasks.map Task.source).Nodup ∧
      (∀ source, source ∈ tasks.map Task.source ↔
        ∃ location, IsSource disk config (root.locate disk.here) location ∧
          source = .ofLocation location) ∧
      ∀ task ∈ tasks, ∃ above stem suffix, NameParts stem suffix ∧
        task.source = .ofLocation (root.locate disk.here ++ above ++ [stem ++ suffix]) ∧
        task.target =
          (config.resolvedBuildDir disk.here).join
            ⟨.relative, above ++ [stem ++ config.targetSuffix]⟩ := by
  rw [hTarget]
  refine ⟨_, collect_eq disk config root hTarget, ?_, fun source => ?_, ?_⟩
  · rw [List.map_map]
    exact (nodup_sourcesBelow hTree).map fun first second hSame => congrArg Path.parts hSame
  · simp only [List.map_map, List.mem_map, Function.comp_apply, mem_sourcesBelow_iff hTree]
    exact exists_congr fun location => and_congr_right fun _ => eq_comm
  · rintro task hTask
    obtain ⟨location, hMem, rfl⟩ := List.mem_map.mp hTask
    obtain ⟨above, stem, suffix, hParts, rfl, hOutput⟩ := exists_output _ hTree hMem
    exact ⟨above, stem, suffix, hParts, rfl, hOutput⟩

/-- A directory that is the build directory itself, with another one of its name in it. -/
def nestedDisk : Disk :=
  ⟨.dir [("w", .dir [("build", .dir
    [("build", .dir [("x.godsl", .file [])]), ("a.b.godsl", .file []),
      ("pkg", .dir [("notes.txt", .file []), (".godsl", .file [])])])])], ["w"]⟩

/-- The root is searched though it is the build directory, and what is named like it is not. -/
theorem collect_exact_nestedDisk :
    ∃ tasks, collect nestedDisk .default (.ofString "build") = .ok tasks ∧
      Path.ofString "/w/build/pkg/.godsl" ∈ tasks.map Task.source ∧
      Path.ofString "/w/build/build/x.godsl" ∉ tasks.map Task.source := by
  obtain ⟨tasks, hCollect, -, hSources, -⟩ :=
    collect_exact nestedDisk .default (.ofString "build") (by decide) rfl
  refine ⟨tasks, hCollect, (hSources _).mpr ?_, fun hFound => ?_⟩
  · refine ⟨["w", "build", "pkg", ".godsl"], ⟨["pkg"], "", [], rfl, rfl, fun front dir hFront => ?_⟩,
      rfl⟩
    obtain ⟨rfl, rfl⟩ : front = [] ∧ dir = "pkg" := by
      cases front <;> simp_all
    exact ⟨by decide, by decide⟩
  · obtain ⟨location, ⟨above, stem, bytes, hLocation, -, hSearched⟩, hPath⟩ := (hSources _).mp hFound
    have hNames : ["w", "build"] ++ (["build"] ++ ["x.godsl"]) =
        ["w", "build"] ++ (above ++ [stem ++ ".godsl"]) :=
      (congrArg Path.parts hPath).trans (hLocation.trans (List.append_assoc _ _ _))
    obtain ⟨rfl, -⟩ := List.append_inj' (List.append_cancel_left hNames) rfl
    exact (hSearched [] "build" List.prefix_rfl).1 rfl

end Disk

end TryGo.Build
