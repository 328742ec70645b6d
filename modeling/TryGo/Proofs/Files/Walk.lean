import TryGo.Proofs.Files.Look

/-! Paths without steps. On the way to a location there are directories only, or something is
missing, or a file bars the way. That settles what every operation on such a path answers. -/
namespace TryGo.Build

/-- A path whose parts are names: it has no steps to a parent. -/
def Path.Plain (path : Path) : Prop := ∀ part ∈ path.parts, IsName part

instance (path : Path) : Decidable path.Plain :=
  inferInstanceAs (Decidable (∀ part ∈ path.parts, IsName part))

/-- A path whose parts all count, as a path that is read has them. It may have steps to a parent. -/
def Path.Tidy (path : Path) : Prop := ∀ part ∈ path.parts, part ≠ "" ∧ part ≠ "."

instance (path : Path) : Decidable path.Tidy :=
  inferInstanceAs (Decidable (∀ part ∈ path.parts, part ≠ "" ∧ part ≠ "."))

/-- A path that is read from a text has neither empty parts nor single dots. -/
theorem Path.tidy_ofString (text : String) : (Path.ofString text).Tidy := by
  intro part hMem
  have hKept := (List.mem_filter.mp hMem).2
  simpa using hKept

namespace Disk

/-- What is seen at a location of a disk. -/
def look (disk : Disk) (location : Location) : Option Entry := disk.tree.look location

/-- Whether a file stands above a location, so that nothing can be there. -/
def Barred (disk : Disk) (location : Location) : Prop :=
  ∃ above name rest bytes,
    location = above ++ name :: rest ∧ disk.look above = some (.file bytes)

variable {disk : Disk} {start above location : Location} {name : String} {names rest : List String}
  {path : Path}

/-- What has something below it is a directory. -/
theorem look_of_look_append (hBelow : disk.look (location ++ name :: rest) ≠ none) :
    disk.look location = some .dir :=
  FileTree.look_of_look_append hBelow

/-- So is everything above it. -/
theorem look_of_prefix {below : Location} (hAbove : location <+: below) (hOther : location ≠ below)
    (hThere : disk.look below ≠ none) : disk.look location = some .dir := by
  obtain ⟨rest, rfl⟩ := hAbove
  cases rest with
  | nil => simp at hOther
  | cons name rest => exact look_of_look_append hThere

/-- Nothing is below a file. -/
theorem Barred.look_eq_none (hBarred : disk.Barred location) : disk.look location = none := by
  obtain ⟨above, name, rest, bytes, rfl, hFile⟩ := hBarred
  by_contra hThere
  rw [look_of_look_append hThere] at hFile
  cases hFile

/-- What a directory has under a name is what is seen there. -/
theorem isSome_lookup {entries : List (String × FileTree)}
    (hDir : disk.tree.get? location = some (.dir entries)) (name : String) :
    (entries.lookup name).isSome = (disk.look (location ++ [name])).isSome := by
  rw [look, FileTree.look_append hDir, FileTree.look_dir_cons]
  cases entries.lookup name <;> simp

/-- One step of following a path, told by what is seen. -/
theorem follow_cons (disk : Disk) (start : Location) (name : String) (rest : List String) :
    disk.follow start (name :: rest) =
      match disk.look start with
      | none => .error .noEntry
      | some (.file _) => .error .notDir
      | some .dir =>
          if name == "" || name == "." then disk.follow start rest
          else if name == ".." then disk.follow start.dropLast rest
          else if (disk.look (start ++ [name])).isSome then disk.follow (start ++ [name]) rest
          else .error .noEntry := by
  rw [follow]
  cases hStart : disk.tree.get? start with
  | none => simp [look, FileTree.look, hStart]
  | some tree =>
    cases tree with
    | file bytes => simp [look, FileTree.look, hStart, FileTree.entry]
    | dir entries =>
      simp only [isSome_lookup hStart]
      simp [look, FileTree.look, hStart, FileTree.entry]

/-- What is missing on the way along a path, if the path ends there. -/
def missingOn (disk : Disk) (start : Location) : List String → Option Location
  | [] => none
  | name :: rest =>
      if name == "" || name == "." then disk.missingOn start rest
      else if name == ".." then disk.missingOn start.dropLast rest
      else if (disk.look (start ++ [name])).isSome then disk.missingOn (start ++ [name]) rest
      else some (start ++ [name])

/-- A name is followed to an entry of the directory. -/
theorem follow_name (hStart : disk.look start = some .dir) (hName : IsName name) :
    disk.follow start (name :: rest) =
      if (disk.look (start ++ [name])).isSome then disk.follow (start ++ [name]) rest
      else .error .noEntry := by
  rw [follow_cons, hStart]
  simp [hName.1, hName.2.1, hName.2.2]

/-! ### Following names -/

/-- Names lead as far as something is there. -/
theorem follow_append (hNames : ∀ name ∈ names, IsName name)
    (hThere : disk.look (start ++ names) ≠ none) (rest : List String) :
    disk.follow start (names ++ rest) = disk.follow (start ++ names) rest := by
  induction names generalizing start with
  | nil => simp
  | cons name others ih =>
    have hStart : disk.look start = some .dir := look_of_look_append hThere
    rw [List.append_cons] at hThere ⊢
    have hNext : disk.look (start ++ [name]) ≠ none := by
      cases others with
      | nil => simpa using hThere
      | cons next more => simp [look_of_look_append hThere]
    rw [List.cons_append, follow_name hStart (hNames _ List.mem_cons_self),
      if_pos (Option.isSome_iff_ne_none.mpr hNext)]
    exact ih (fun next hMem => hNames next (List.mem_cons_of_mem _ hMem)) hThere

/-- Names that lead somewhere are followed to the end. -/
theorem follow_of_look (hNames : ∀ name ∈ names, IsName name)
    (hThere : disk.look (start ++ names) ≠ none) :
    disk.follow start names = .ok (start ++ names) := by
  simpa [follow] using follow_append hNames hThere []

/-- A file above a location below a directory is below that directory, too. -/
theorem Barred.exists_below (hStart : disk.look start = some .dir)
    (hBarred : disk.Barred (start ++ names)) :
    ∃ front name rest bytes,
      names = front ++ name :: rest ∧ disk.look (start ++ front) = some (.file bytes) := by
  obtain ⟨above, name, rest, bytes, hSplit, hFile⟩ := hBarred
  rcases List.append_eq_append_iff.mp hSplit with ⟨front, rfl, hNames⟩ | ⟨back, rfl, hRest⟩
  · exact ⟨front, name, rest, bytes, hNames, hFile⟩
  · cases back with
    | nil =>
      rw [List.append_nil, hFile] at hStart
      cases hStart
    | cons next others =>
      have hAbove := look_of_look_append (hStart ▸ Option.some_ne_none Entry.dir)
      rw [hAbove] at hFile
      cases hFile

/-- Names lead to the location that they spell, if they lead anywhere. -/
theorem eq_of_follow (hNames : ∀ name ∈ names, IsName name)
    (hFollow : disk.follow start names = .ok location) : location = start ++ names := by
  induction names generalizing start with
  | nil => simpa [follow, eq_comm] using hFollow
  | cons name rest ih =>
    cases hStart : disk.look start with
    | none => simp [follow_cons, hStart] at hFollow
    | some entry =>
      cases entry with
      | file bytes => simp [follow_cons, hStart] at hFollow
      | dir =>
        rw [follow_name hStart (hNames _ List.mem_cons_self)] at hFollow
        split at hFollow
        · rw [List.append_cons]
          exact ih (fun next hMem => hNames next (List.mem_cons_of_mem _ hMem)) hFollow
        · cases hFollow

/-- What is there has its directory there too. -/
theorem look_dropLast_ne_none (hThere : disk.look location ≠ none) :
    disk.look location.dropLast ≠ none := by
  rcases List.eq_nil_or_concat' location with rfl | ⟨above, last, rfl⟩
  · exact hThere
  · rw [List.dropLast_concat, look_of_look_append hThere]
    exact Option.some_ne_none _

/-- Something is there where a path leads. -/
theorem look_of_follow (hStart : disk.look start ≠ none)
    (hFollow : disk.follow start names = .ok location) : disk.look location ≠ none := by
  induction names generalizing start with
  | nil =>
    obtain rfl : start = location := by simpa [follow] using hFollow
    exact hStart
  | cons name rest ih =>
    rw [follow_cons] at hFollow
    split at hFollow
    · cases hFollow
    · cases hFollow
    · next hDir =>
      split at hFollow
      · exact ih hStart hFollow
      · split at hFollow
        · exact ih (look_dropLast_ne_none hStart) hFollow
        · split at hFollow
          · next hThere => exact ih (Option.isSome_iff_ne_none.mp hThere) hFollow
          · cases hFollow

/-- Names do not lead past a file. -/
theorem follow_of_barred (hStart : disk.look start = some .dir)
    (hNames : ∀ name ∈ names, IsName name) (hBarred : disk.Barred (start ++ names)) :
    disk.follow start names = .error .notDir := by
  obtain ⟨front, name, rest, bytes, rfl, hFile⟩ := hBarred.exists_below hStart
  rw [follow_append (fun next hMem => hNames next (List.mem_append_left _ hMem)) (by simp [hFile]),
    follow_cons, hFile]

/-- Names do not lead to what is missing. -/
theorem follow_of_missing (hStart : disk.look start = some .dir)
    (hNames : ∀ name ∈ names, IsName name) (hMissing : disk.look (start ++ names) = none)
    (hFree : ¬ disk.Barred (start ++ names)) : disk.follow start names = .error .noEntry := by
  induction names generalizing start with
  | nil => simp [hStart] at hMissing
  | cons name rest ih =>
    rw [follow_name hStart (hNames _ List.mem_cons_self)]
    rw [List.append_cons] at hMissing hFree
    cases hNext : disk.look (start ++ [name]) with
    | none => simp
    | some entry =>
      simp only [Option.isSome_some, if_true]
      cases entry with
      | dir =>
        exact ih hNext (fun next hMem => hNames next (List.mem_cons_of_mem _ hMem)) hMissing hFree
      | file bytes =>
        cases rest with
        | nil => simp [hNext] at hMissing
        | cons next others => exact absurd ⟨_, _, _, _, rfl, hNext⟩ hFree

/-! ### Operations on paths -/

/-- A file is read where the path leads. -/
theorem read_eq (disk : Disk) (path : Path) :
    disk.read path =
      match disk.follow (disk.startOf path) path.parts with
      | .error errno => .error (.ofPath errno path)
      | .ok location =>
          match disk.look location with
          | none => .error (.ofPath .noEntry path)
          | some .dir => .error (.ofPath .isDir path)
          | some (.file bytes) => .ok bytes := by
  simp only [read, entry, look, FileTree.look]
  cases disk.follow (disk.startOf path) path.parts with
  | error errno => rfl
  | ok location =>
    cases hTree : disk.tree.get? location with
    | none => simp [bind, Except.bind, hTree]; rfl
    | some tree => cases tree <;> simp [bind, Except.bind, hTree, pure, Except.pure, FileTree.entry]

/-- A path is a directory if it leads to one. -/
theorem isDir_eq (disk : Disk) (path : Path) :
    disk.isDir path =
      match disk.follow (disk.startOf path) path.parts with
      | .error _ => false
      | .ok location => decide (disk.look location = some .dir) := by
  simp only [isDir, entry, look, FileTree.look]
  cases disk.follow (disk.startOf path) path.parts with
  | error errno => rfl
  | ok location =>
    cases hTree : disk.tree.get? location with
    | none => simp [bind, Except.bind, hTree]; rfl
    | some tree =>
      cases tree <;>
        simp [bind, Except.bind, hTree, pure, Except.pure, FileTree.entry, FileTree.isDir]

/-- The place of a path with a last name, told by what is seen. -/
theorem place_eq (hParts : path.parts = names ++ [name]) (disk : Disk) :
    disk.place path =
      match disk.follow (disk.startOf path) names with
      | .error errno => .error errno
      | .ok above =>
          match disk.look above with
          | none => .error .noEntry
          | some (.file _) => .error .notDir
          | some .dir => .ok (if name == ".." then none else some (above ++ [name])) := by
  simp only [place, hParts, List.getLast?_concat, List.dropLast_concat, look, FileTree.look]
  cases disk.follow (disk.startOf path) names with
  | error errno => rfl
  | ok above =>
    cases hTree : disk.tree.get? above with
    | none => simp [bind, Except.bind, hTree]; rfl
    | some tree =>
      cases tree <;> simp [bind, Except.bind, hTree, pure, Except.pure, FileTree.entry]
      rfl

theorem place_of_nil (hParts : path.parts = []) : disk.place path = .ok none := by
  simp [place, hParts, pure, Except.pure]

/-- A directory without a name is there already. -/
theorem makeDir_of_none (hPlace : disk.place path = .ok none) :
    disk.makeDir path = .error .exists := by
  simp only [makeDir, hPlace]
  rfl

/-- A path without a name is no file. -/
theorem write_of_none (hPlace : disk.place path = .ok none) (bytes : List UInt8) :
    disk.write path bytes = .error (.ofPath .isDir path) := by
  simp [write, hPlace]

/-- What has no place cannot be made. -/
theorem makeDir_of_error {errno : Errno} (hPlace : disk.place path = .error errno) :
    disk.makeDir path = .error errno := by
  simp [makeDir, hPlace, bind, Except.bind]

/-- A directory is made in a free place. -/
theorem makeDir_of_place (hPlace : disk.place path = .ok (some location)) :
    disk.makeDir path =
      if (disk.look location).isSome then .error .exists
      else .ok { disk with tree := disk.tree.put location (.dir []) } := by
  simp only [makeDir, hPlace, bind, Except.bind, look, FileTree.look, Option.isSome_map]
  rfl

/-- A file is written in any place but that of a directory. -/
theorem write_of_place (hPlace : disk.place path = .ok (some location)) (bytes : List UInt8) :
    disk.write path bytes =
      if disk.look location = some .dir then .error (.ofPath .isDir path)
      else .ok { disk with tree := disk.tree.put location (.file bytes) } := by
  simp only [write, hPlace]
  split
  · next entries hDir => simp [look, FileTree.look, hDir, FileTree.entry]
  · next hOther =>
    have hNoDir : disk.look location ≠ some .dir := by
      intro hDir
      obtain ⟨tree, hTree, hEntry⟩ := Option.map_eq_some_iff.mp hDir
      obtain ⟨entries, rfl⟩ := FileTree.entry_eq_dir_iff.mp hEntry
      exact hOther entries hTree
    rw [if_neg hNoDir]

/-! ### Operations on plain paths -/

/-- A name is barred by a file in the place of its directory, or above it. -/
theorem barred_concat_iff :
    disk.Barred (above ++ [name]) ↔
      disk.Barred above ∨ ∃ bytes, disk.look above = some (.file bytes) := by
  constructor
  · rintro ⟨front, next, rest, bytes, hSplit, hFile⟩
    rcases List.eq_nil_or_concat' rest with rfl | ⟨others, last, rfl⟩
    · obtain ⟨rfl, -⟩ := List.append_inj' hSplit rfl
      exact .inr ⟨bytes, hFile⟩
    · rw [← List.cons_append, ← List.append_assoc] at hSplit
      exact .inl ⟨front, next, others, bytes, (List.append_inj' hSplit rfl).1, hFile⟩
  · rintro (⟨front, next, rest, bytes, rfl, hFile⟩ | ⟨bytes, hFile⟩)
    · exact ⟨front, next, rest ++ [name], bytes, by simp, hFile⟩
    · exact ⟨above, name, [], bytes, rfl, hFile⟩

section Plain

variable (hParts : path.parts = names ++ [name]) (hPlain : path.Plain)

include hParts hPlain

/-- The place of a name is in the directory it is given for. -/
theorem place_of_dir (hDir : disk.look (disk.startOf path ++ names) = some .dir) :
    disk.place path = .ok (some (disk.startOf path ++ names ++ [name])) := by
  have hName : IsName name := hPlain _ (by simp [hParts])
  have hNames : ∀ part ∈ names, IsName part := fun part hMem => hPlain _ (by simp [hParts, hMem])
  rw [place_eq hParts, follow_of_look hNames (by simp [hDir])]
  simp [hDir, hName.2.2]

/-- A file in the way leaves no place. -/
theorem place_of_barred (hStart : disk.look (disk.startOf path) = some .dir)
    (hBarred : disk.Barred (disk.startOf path ++ names ++ [name])) :
    disk.place path = .error .notDir := by
  have hNames : ∀ part ∈ names, IsName part := fun part hMem => hPlain _ (by simp [hParts, hMem])
  rw [place_eq hParts]
  rcases barred_concat_iff.mp hBarred with hAbove | ⟨bytes, hFile⟩
  · rw [follow_of_barred hStart hNames hAbove]
  · rw [follow_of_look hNames (by simp [hFile])]
    simp only [hFile]

/-- A directory that is missing leaves no place. -/
theorem place_of_missing (hStart : disk.look (disk.startOf path) = some .dir)
    (hMissing : disk.look (disk.startOf path ++ names) = none)
    (hFree : ¬ disk.Barred (disk.startOf path ++ names)) :
    disk.place path = .error .noEntry := by
  have hNames : ∀ part ∈ names, IsName part := fun part hMem => hPlain _ (by simp [hParts, hMem])
  rw [place_eq hParts, follow_of_missing hStart hNames hMissing hFree]

end Plain

/-- A place is under a name in a directory that the rest of the path leads to. -/
theorem place_inv (hPlace : disk.place path = .ok (some location)) :
    ∃ names name above, path.parts = names ++ [name] ∧
      disk.follow (disk.startOf path) names = .ok above ∧ disk.look above = some .dir ∧
      location = above ++ [name] := by
  rcases List.eq_nil_or_concat' path.parts with hNil | ⟨names, name, hParts⟩
  · rw [place_of_nil hNil] at hPlace
    cases hPlace
  · rw [place_eq hParts] at hPlace
    cases hFollow : disk.follow (disk.startOf path) names with
    | error errno => simp [hFollow] at hPlace
    | ok above =>
      simp only [hFollow] at hPlace
      split at hPlace
      · cases hPlace
      · cases hPlace
      · next hDir =>
        split at hPlace
        · cases hPlace
        · exact ⟨names, name, above, hParts, hFollow, hDir, by simpa using hPlace.symm⟩

/-- The place of a plain path is the location that it spells. -/
theorem eq_of_place (hPlain : path.Plain) (hPlace : disk.place path = .ok (some location)) :
    location = disk.startOf path ++ path.parts := by
  obtain ⟨names, name, above, hParts, hFollow, _, rfl⟩ := place_inv hPlace
  rw [eq_of_follow (fun part hMem => hPlain _ (by simp [hParts, hMem])) hFollow, hParts,
    List.append_assoc]

/-- Making a directory puts one where nothing was. -/
theorem makeDir_inv {after : Disk} (hMake : disk.makeDir path = .ok after) :
    ∃ location, disk.place path = .ok (some location) ∧ disk.look location = none ∧
      after = { disk with tree := disk.tree.put location (.dir []) } ∧
      ∀ other, after.look other = if other = location then some .dir else disk.look other := by
  cases hPlace : disk.place path with
  | error errno => simp [makeDir_of_error hPlace] at hMake
  | ok place =>
    cases place with
    | none => simp [makeDir_of_none hPlace] at hMake
    | some location =>
      rw [makeDir_of_place hPlace] at hMake
      split at hMake
      · cases hMake
      · next hFree =>
        have hNone := Option.not_isSome_iff_eq_none.mp hFree
        obtain rfl := Except.ok.inj hMake
        refine ⟨location, rfl, hNone, rfl, fun other => ?_⟩
        obtain ⟨_, _, _, _, _, hAbove, rfl⟩ := place_inv hPlace
        refine FileTree.look_put hAbove (fun hDir => ?_) (by simp) other
        rw [look, hDir] at hNone
        cases hNone

/-- Writing puts a file where no directory was. -/
theorem write_inv {after : Disk} {bytes : List UInt8}
    (hWrite : disk.write path bytes = .ok after) :
    ∃ location, disk.place path = .ok (some location) ∧ disk.look location ≠ some .dir ∧
      after = { disk with tree := disk.tree.put location (.file bytes) } ∧
      ∀ other, after.look other =
        if other = location then some (.file bytes) else disk.look other := by
  cases hPlace : disk.place path with
  | error errno => simp [write, hPlace] at hWrite
  | ok place =>
    cases place with
    | none => simp [write_of_none hPlace] at hWrite
    | some location =>
      rw [write_of_place hPlace] at hWrite
      split at hWrite
      · cases hWrite
      · next hNoDir =>
        obtain rfl := Except.ok.inj hWrite
        refine ⟨location, rfl, hNoDir, rfl, fun other => ?_⟩
        obtain ⟨_, _, _, _, _, hAbove, rfl⟩ := place_inv hPlace
        exact FileTree.look_put hAbove hNoDir (by simp) other

end Disk

end TryGo.Build
