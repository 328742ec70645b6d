import TryGo.Build.Collect
import TryGo.Proofs.Files.Walk
import Mathlib.Data.String.Basic

/-! What the search for sources finds. Below a directory it finds files only, each of them once,
and none below a directory that is left out. The files of a directory come before those of its
subdirectories. -/
namespace TryGo.Build

variable {skip : Location → Bool} {here location : Location} {tree : FileTree}
  {entries : List (String × FileTree)}

/-- The search below each subdirectory that is not left out. -/
theorem filesBelowEach_eq (skip : Location → Bool) (here : Location)
    (entries : List (String × FileTree)) :
    filesBelowEach skip here entries =
      (entries.filter fun entry => entry.2.isDir && !skip (here ++ [entry.1])).map fun entry =>
        (entry.1, filesBelow skip (here ++ [entry.1]) entry.2) := by
  induction entries with
  | nil => rfl
  | cons entry rest ih =>
    obtain ⟨name, tree⟩ := entry
    simp only [filesBelowEach, List.filter_cons]
    split <;> simp [ih]

theorem mem_filesBelowEach {searched : String × List Location} :
    searched ∈ filesBelowEach skip here entries ↔
      ∃ name below, (name, FileTree.dir below) ∈ entries ∧ skip (here ++ [name]) = false ∧
        searched = (name, filesBelow skip (here ++ [name]) (.dir below)) := by
  simp only [filesBelowEach_eq, List.mem_map, List.mem_filter]
  constructor
  · rintro ⟨⟨name, tree⟩, ⟨hMem, hSearched⟩, rfl⟩
    cases tree with
    | file bytes => simp [FileTree.isDir] at hSearched
    | dir below => exact ⟨name, below, hMem, by simpa [FileTree.isDir] using hSearched, rfl⟩
  · rintro ⟨name, below, hMem, hSearched, rfl⟩
    exact ⟨(name, .dir below), ⟨hMem, by simp [FileTree.isDir, hSearched]⟩, rfl⟩

theorem mem_fileNames {name : String} :
    name ∈ fileNames entries ↔ ∃ bytes, (name, FileTree.file bytes) ∈ entries := by
  simp only [fileNames, List.mem_mergeSort, List.mem_map, List.mem_filter]
  constructor
  · rintro ⟨⟨other, tree⟩, ⟨hMem, hFile⟩, rfl⟩
    cases tree with
    | file bytes => exact ⟨bytes, hMem⟩
    | dir _ => cases hFile
  · rintro ⟨bytes, hMem⟩
    exact ⟨_, ⟨hMem, rfl⟩, rfl⟩

/-- A search finds the files of a directory, and what a search of its subdirectories finds. -/
theorem mem_filesBelow_dir :
    location ∈ filesBelow skip here (.dir entries) ↔
      (∃ name bytes, (name, FileTree.file bytes) ∈ entries ∧ location = here ++ [name]) ∨
      ∃ name below, (name, FileTree.dir below) ∈ entries ∧ skip (here ++ [name]) = false ∧
        location ∈ filesBelow skip (here ++ [name]) (.dir below) := by
  rw [filesBelow, List.mem_append]
  refine or_congr ?_ ?_
  · simp only [List.mem_map, mem_fileNames]
    constructor
    · rintro ⟨name, ⟨bytes, hMem⟩, rfl⟩
      exact ⟨name, bytes, hMem, rfl⟩
    · rintro ⟨name, bytes, hMem, rfl⟩
      exact ⟨name, ⟨bytes, hMem⟩, rfl⟩
  · simp only [sortByName, List.mem_flatMap, List.mem_mergeSort, mem_filesBelowEach]
    constructor
    · rintro ⟨_, ⟨name, below, hMem, hSearched, rfl⟩, hFound⟩
      exact ⟨name, below, hMem, hSearched, hFound⟩
    · rintro ⟨name, below, hMem, hSearched, hFound⟩
      exact ⟨_, ⟨name, below, hMem, hSearched, rfl⟩, hFound⟩

/-- What a search finds is below where it starts. -/
theorem FileTree.Named.exists_of_mem_filesBelow (hTree : tree.Named)
    (hFound : location ∈ filesBelow skip here tree) :
    ∃ name rest, location = here ++ name :: rest := by
  induction hTree generalizing here with
  | file bytes => cases hFound
  | @dir entries _ _ _ ih =>
    rcases mem_filesBelow_dir.mp hFound with ⟨name, _, _, rfl⟩ | ⟨name, below, hMem, _, hBelow⟩
    · exact ⟨name, [], rfl⟩
    · obtain ⟨next, rest, rfl⟩ := ih _ hMem hBelow
      exact ⟨name, next :: rest, by simp⟩

/-- What a search finds are files. -/
theorem FileTree.Named.look_of_mem_filesBelow (hTree : tree.Named)
    (hFound : location ∈ filesBelow skip here tree) :
    ∃ below bytes, location = here ++ below ∧ tree.look below = some (.file bytes) := by
  induction hTree generalizing here with
  | file bytes => cases hFound
  | @dir entries hDistinct _ _ ih =>
    rcases mem_filesBelow_dir.mp hFound with ⟨name, bytes, hMem, rfl⟩ | ⟨name, _, hMem, _, hBelow⟩
    · refine ⟨[name], bytes, rfl, ?_⟩
      simp [lookup_of_mem hDistinct hMem, FileTree.entry]
    · obtain ⟨rest, bytes, rfl, hFile⟩ := ih _ hMem hBelow
      refine ⟨name :: rest, bytes, by simp, ?_⟩
      rw [FileTree.look_dir_cons, lookup_of_mem hDistinct hMem]
      exact hFile

/-- A directory on the way to what a search finds is not left out. -/
theorem FileTree.Named.skip_eq_false {name next : String} {front rest : List String}
    (hTree : tree.Named)
    (hFound : here ++ name :: front ++ next :: rest ∈ filesBelow skip here tree) :
    skip (here ++ name :: front) = false := by
  induction hTree generalizing here name front with
  | file bytes => cases hFound
  | @dir entries _ _ hNamed ih =>
    rcases mem_filesBelow_dir.mp hFound with
      ⟨file, _, _, hFile⟩ | ⟨first, below, hMem, hSkip, hBelow⟩
    · have hLength := congrArg List.length hFile
      simp only [List.length_append, List.length_cons, List.length_nil] at hLength
      omega
    · obtain ⟨_, _, hStart⟩ := (hNamed _ hMem).exists_of_mem_filesBelow hBelow
      obtain rfl : name = first := by
        simp only [List.append_assoc, List.append_cancel_left_eq, List.cons_append,
          List.cons.injEq] at hStart
        exact hStart.1
      cases front with
      | nil => exact hSkip
      | cons second others =>
        have hNext : skip (here ++ [name] ++ second :: others) = false :=
          ih _ hMem (by simpa using hBelow)
        simpa using hNext

/-! ### The order in which files are found -/

/-- Whether a location is found before another one, both taken from where the search starts. -/
inductive FoundBefore : Location → Location → Prop where
  | fileFirst {name dir next : String} {rest : Location} : FoundBefore [name] (dir :: next :: rest)
  | files {name other : String} (hNames : name < other) : FoundBefore [name] [other]
  | dirs {dir other name next : String} {rest more : Location} (hDirs : dir < other) :
      FoundBefore (dir :: name :: rest) (other :: next :: more)
  | inDir {dir : String} {first second : Location} (hBelow : FoundBefore first second) :
      FoundBefore (dir :: first) (dir :: second)

theorem FoundBefore.irrefl (location : Location) : ¬ FoundBefore location location := by
  induction location with
  | nil => nofun
  | cons name rest ih =>
    intro hFound
    cases hFound with
    | files hNames => exact lt_irrefl _ hNames
    | dirs hDirs => exact lt_irrefl _ hDirs
    | inDir hBelow => exact ih hBelow

/-- Sorting things of different names puts each before those of greater names. -/
theorem pairwise_lt_mergeSort {α : Type} (key : α → String) {items : List α}
    (hDistinct : (items.map key).Nodup) :
    (items.mergeSort fun a b => decide (key a ≤ key b)).Pairwise fun a b => key a < key b := by
  have hSorted : (items.mergeSort fun a b => decide (key a ≤ key b)).Pairwise
      fun a b => decide (key a ≤ key b) = true := by
    refine List.pairwise_mergeSort (fun a b c hFirst hSecond => ?_) (fun a b => ?_) items
    · exact decide_eq_true ((of_decide_eq_true hFirst).trans (of_decide_eq_true hSecond))
    · simpa using le_total (key a) (key b)
  have hOther : (items.mergeSort fun a b => decide (key a ≤ key b)).Pairwise
      fun a b => key a ≠ key b :=
    List.pairwise_map.mp ((((List.mergeSort_perm _ _).map key).nodup_iff).mpr hDistinct)
  exact (hSorted.and hOther).imp fun hBoth => lt_of_le_of_ne (of_decide_eq_true hBoth.1) hBoth.2

/-- A search finds things one before the other. -/
theorem FileTree.Named.pairwise_filesBelow (hTree : tree.Named) :
    (filesBelow skip here tree).Pairwise fun found later =>
      ∃ first second, found = here ++ first ∧ later = here ++ second ∧
        FoundBefore first second := by
  induction hTree generalizing here with
  | file bytes => exact .nil
  | @dir entries hDistinct _ hNamed ih =>
    -- Below a subdirectory the search goes on, and what it finds starts with its name.
    have hBelow : ∀ searched ∈ sortByName (filesBelowEach skip here entries),
        (searched.2.Pairwise fun found later =>
          ∃ first second, found = here ++ [searched.1] ++ first ∧
            later = here ++ [searched.1] ++ second ∧ FoundBefore first second) ∧
          ∀ found ∈ searched.2, ∃ next rest, found = here ++ searched.1 :: next :: rest := by
      intro searched hSearched
      obtain ⟨name, below, hMem, -, rfl⟩ :=
        mem_filesBelowEach.mp (List.mem_mergeSort.mp hSearched)
      refine ⟨ih _ hMem, fun found hFound => ?_⟩
      obtain ⟨next, rest, rfl⟩ := (hNamed _ hMem).exists_of_mem_filesBelow hFound
      exact ⟨next, rest, by simp⟩
    have hFiles : (fileNames entries).Pairwise (· < ·) :=
      pairwise_lt_mergeSort id (by simpa using hDistinct.sublist (List.filter_sublist.map Prod.fst))
    have hDirs : (sortByName (filesBelowEach skip here entries)).Pairwise
        fun searched other => searched.1 < other.1 := by
      refine pairwise_lt_mergeSort Prod.fst ?_
      rw [filesBelowEach_eq, List.map_map]
      exact hDistinct.sublist (List.filter_sublist.map Prod.fst)
    rw [filesBelow, List.pairwise_append, List.pairwise_map, List.pairwise_flatMap]
    refine ⟨?_, ⟨fun searched hSearched => ?_, ?_⟩, ?_⟩
    · exact hFiles.imp fun hLess => ⟨_, _, rfl, rfl, .files hLess⟩
    · refine (hBelow searched hSearched).1.imp ?_
      rintro _ _ ⟨first, second, rfl, rfl, hFound⟩
      exact ⟨searched.1 :: first, searched.1 :: second, by simp, by simp, .inDir hFound⟩
    · refine hDirs.imp_of_mem fun hFirst hSecond hLess found hFound later hLater => ?_
      obtain ⟨_, _, rfl⟩ := (hBelow _ hFirst).2 found hFound
      obtain ⟨_, _, rfl⟩ := (hBelow _ hSecond).2 later hLater
      exact ⟨_, _, rfl, rfl, .dirs hLess⟩
    · intro found hFile later hLater
      obtain ⟨name, -, rfl⟩ := List.mem_map.mp hFile
      obtain ⟨searched, hSearched, hMem⟩ := List.mem_flatMap.mp hLater
      obtain ⟨_, _, rfl⟩ := (hBelow _ hSearched).2 later hMem
      exact ⟨_, _, rfl, rfl, .fileFirst⟩

section Disk

variable {disk : Disk} {config : Config} {root : Location}

/-- A source is found in a directory at the root or below it. -/
theorem exists_of_mem_sourcesBelow (hTree : disk.tree.Named)
    (hSource : location ∈ sourcesBelow disk config root) :
    ∃ above name, location = root ++ above ++ [name] ∧
      hasSuffix config.sourceSuffix name = true := by
  obtain ⟨hFound, hSuffix⟩ := List.mem_filter.mp hSource
  cases hRoot : disk.tree.get? root with
  | none => simp [hRoot] at hFound
  | some tree =>
    simp only [hRoot] at hFound
    obtain ⟨first, rest, rfl⟩ := (hTree.get? hRoot).exists_of_mem_filesBelow hFound
    obtain ⟨above, name, hNames⟩ :=
      (List.eq_nil_or_concat (first :: rest)).resolve_left (List.cons_ne_nil _ _)
    rw [hNames] at hSuffix ⊢
    exact ⟨above, name, by simp, by simpa [← List.append_assoc] using hSuffix⟩

/-- A source is a file. -/
theorem look_of_mem_sourcesBelow (hTree : disk.tree.Named)
    (hSource : location ∈ sourcesBelow disk config root) :
    ∃ bytes, disk.look location = some (.file bytes) := by
  have hFound := (List.mem_filter.mp hSource).1
  cases hRoot : disk.tree.get? root with
  | none => simp [hRoot] at hFound
  | some tree =>
    simp only [hRoot] at hFound
    obtain ⟨below, bytes, rfl, hFile⟩ := (hTree.get? hRoot).look_of_mem_filesBelow hFound
    exact ⟨bytes, (FileTree.look_append hRoot below).trans hFile⟩

/-- A source is not in the build directory unless the root is. -/
theorem not_in_buildDir {buildDir : Location} (hTree : disk.tree.Named)
    (hBuild : config.resolvedBuildDir disk.here = .ofLocation buildDir)
    (hRoot : ¬ buildDir <+: root) (hSource : location ∈ sourcesBelow disk config root)
    (hInside : buildDir <+: location) : buildDir = location := by
  have hFound := (List.mem_filter.mp hSource).1
  obtain ⟨above, last, hLocation, _⟩ := exists_of_mem_sourcesBelow hTree hSource
  have hBelow : root <+: location := by
    rw [hLocation, List.append_assoc]
    exact List.prefix_append _ _
  obtain ⟨middle, rfl⟩ := (List.prefix_or_prefix_of_prefix hInside hBelow).resolve_left hRoot
  obtain ⟨rest, rfl⟩ := hInside
  cases rest with
  | nil => rw [List.append_nil]
  | cons next rest =>
    cases middle with
    | nil => simp at hRoot
    | cons name front =>
      cases hTop : disk.tree.get? root with
      | none => simp [hTop] at hFound
      | some tree =>
        simp only [hTop] at hFound
        have hSkip := (hTree.get? hTop).skip_eq_false hFound
        simp [isSkipped, hBuild] at hSkip

theorem pairwise_sourcesBelow (hTree : disk.tree.Named) :
    (sourcesBelow disk config root).Pairwise fun found later =>
      ∃ first second, found = root ++ first ∧ later = root ++ second ∧
        FoundBefore first second := by
  refine List.Pairwise.filter _ ?_
  cases hRoot : disk.tree.get? root with
  | none => exact .nil
  | some tree => exact (hTree.get? hRoot).pairwise_filesBelow

/-- Nothing is found twice. -/
theorem nodup_sourcesBelow (hTree : disk.tree.Named) : (sourcesBelow disk config root).Nodup := by
  refine (pairwise_sourcesBelow hTree).imp ?_
  rintro _ _ ⟨first, second, rfl, rfl, hFound⟩ hSame
  rw [List.append_cancel_left hSame] at hFound
  exact FoundBefore.irrefl _ hFound

end Disk

end TryGo.Build
