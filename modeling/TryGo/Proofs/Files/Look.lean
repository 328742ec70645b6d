import TryGo.Proofs.Files.Tree

/-! What is seen at each location of a disk. Every operation on files answers from what is seen
along a path, and changes what is seen in one place. -/
namespace TryGo.Build

/-- What is seen at a location: a file with its bytes, or a directory. -/
inductive Entry where
  | file (bytes : List UInt8)
  | dir
deriving DecidableEq

namespace FileTree

def entry : FileTree → Entry
  | .file bytes => .file bytes
  | .dir _ => .dir

/-- What is seen at a location, if anything is there. -/
def look (tree : FileTree) (location : Location) : Option Entry :=
  (tree.get? location).map entry

variable {tree new : FileTree} {location other : Location} {name : String}
  {entries : List (String × FileTree)}

@[simp]
theorem look_nil (tree : FileTree) : tree.look [] = some tree.entry := by
  simp [look, FileTree.get?]

@[simp]
theorem look_file_cons (bytes : List UInt8) (name : String) (rest : Location) :
    (file bytes).look (name :: rest) = none := rfl

@[simp]
theorem look_dir_cons (entries : List (String × FileTree)) (name : String) (rest : Location) :
    (dir entries).look (name :: rest) = (entries.lookup name).bind (·.look rest) := by
  cases hEntry : entries.lookup name <;> simp [look, FileTree.get?, hEntry]

@[simp]
theorem entry_eq_dir_iff : tree.entry = .dir ↔ ∃ entries, tree = .dir entries := by
  cases tree <;> simp [entry]

/-- What is seen below a directory is what is seen from there. -/
theorem look_append {below : FileTree} (hBelow : tree.get? location = some below)
    (rest : Location) : tree.look (location ++ rest) = below.look rest := by
  induction location generalizing tree with
  | nil => rw [Option.some.inj hBelow, List.nil_append]
  | cons first others ih =>
    cases tree with
    | file bytes => cases hBelow
    | dir entries =>
      rw [FileTree.get?] at hBelow
      rw [List.cons_append, look_dir_cons]
      cases hEntry : entries.lookup first with
      | none => simp [hEntry] at hBelow
      | some next =>
        simp only [hEntry] at hBelow
        exact ih hBelow

/-- Only a directory has something below it. -/
theorem look_of_look_append {rest : Location}
    (hBelow : tree.look (location ++ name :: rest) ≠ none) : tree.look location = some .dir := by
  induction location generalizing tree with
  | nil =>
    cases tree with
    | file bytes => exact absurd rfl hBelow
    | dir entries => rfl
  | cons first others ih =>
    cases tree with
    | file bytes => exact absurd rfl hBelow
    | dir entries =>
      rw [List.cons_append, look_dir_cons] at hBelow
      rw [look_dir_cons]
      cases hEntry : entries.lookup first with
      | none => simp [hEntry] at hBelow
      | some below =>
        rw [hEntry] at hBelow
        exact ih hBelow

theorem lookup_setEntry (name : String) (new : FileTree) (entries : List (String × FileTree))
    (other : String) :
    (setEntry name new entries).lookup other =
      if other = name then some new else entries.lookup other := by
  induction entries with
  | nil => rw [setEntry, lookup_cons_eq]
  | cons first rest ih =>
    obtain ⟨firstName, firstTree⟩ := first
    by_cases hFirst : firstName = name
    · subst hFirst
      by_cases hOther : other = firstName <;> simp [setEntry, lookup_cons_eq, hOther]
    · by_cases hOther : other = firstName
      · subst hOther
        simp [setEntry, hFirst]
      · simp [setEntry, lookup_cons_eq, hFirst, hOther, ih]

theorem lookup_filter_ne (name : String) (entries : List (String × FileTree)) (other : String) :
    (entries.filter fun entry => entry.1 != name).lookup other =
      if other = name then none else entries.lookup other := by
  induction entries with
  | nil => simp
  | cons first rest ih =>
    obtain ⟨firstName, firstTree⟩ := first
    by_cases hFirst : firstName = name
    · subst hFirst
      rw [List.filter_cons_of_neg (by simp), ih, lookup_cons_eq]
      by_cases hOther : other = firstName <;> simp [hOther]
    · by_cases hOther : other = firstName
      · subst hOther
        simp [hFirst]
      · simp [lookup_cons_eq, hFirst, hOther, ih]

/-- Putting something below a directory that is there is a change of one entry. -/
theorem put_cons {below : FileTree} (hBelow : entries.lookup name = some below)
    (hLocation : location ≠ []) (new : FileTree) :
    (dir entries).put (name :: location) new =
      dir (setEntry name (below.put location new) entries) := by
  cases location with
  | nil => exact absurd rfl hLocation
  | cons next rest => simp only [put, hBelow]

theorem setEntry_setEntry (name : String) (old new : FileTree)
    (entries : List (String × FileTree)) :
    setEntry name new (setEntry name old entries) = setEntry name new entries := by
  induction entries with
  | nil => simp [setEntry]
  | cons first rest ih => by_cases hFirst : first.1 = name <;> simp [setEntry, hFirst, ih]

/-- Only what was put last counts. -/
theorem put_put (tree : FileTree) (location : Location) (old new : FileTree) :
    (tree.put location old).put location new = tree.put location new := by
  induction location generalizing tree with
  | nil => simp [put]
  | cons first rest ih =>
    cases tree with
    | file bytes => simp [put]
    | dir entries =>
      cases rest with
      | nil => simp only [put, setEntry_setEntry]
      | cons next others =>
        cases hEntry : entries.lookup first with
        | none => simp only [put, hEntry]
        | some below =>
          simp only [put, hEntry, lookup_setEntry, if_true, setEntry_setEntry, ih]

/-- Something without anything below it, put where no directory was, is seen in its place, and
nowhere else does it make a difference. -/
theorem look_put (hParent : tree.look location = some .dir)
    (hHere : tree.look (location ++ [name]) ≠ some .dir)
    (hLeaf : ∀ next rest, new.look (next :: rest) = none) (other : Location) :
    (tree.put (location ++ [name]) new).look other =
      if other = location ++ [name] then some new.entry else tree.look other := by
  induction location generalizing tree other with
  | nil =>
    obtain ⟨entries, rfl⟩ : ∃ entries, tree = .dir entries := by simpa using hParent
    rw [List.nil_append, put]
    cases other with
    | nil => simp [entry]
    | cons first rest =>
      rw [look_dir_cons, lookup_setEntry]
      by_cases hFirst : first = name
      · subst hFirst
        cases rest with
        | nil => simp
        | cons next others =>
          have hNone : (dir entries).look (first :: next :: others) = none := by
            by_contra hSome
            exact hHere (look_of_look_append hSome)
          simp [hLeaf, hNone]
      · simp [hFirst]
  | cons first rest ih =>
    cases tree with
    | file bytes => cases hParent
    | dir entries =>
      rw [look_dir_cons] at hParent
      rw [List.cons_append, look_dir_cons] at hHere
      cases hEntry : entries.lookup first with
      | none => simp [hEntry] at hParent
      | some below =>
        rw [hEntry] at hParent hHere
        rw [List.cons_append, put_cons hEntry (by simp)]
        cases other with
        | nil => simp [entry]
        | cons next others =>
          rw [look_dir_cons, look_dir_cons, lookup_setEntry]
          by_cases hNext : next = first
          · subst hNext
            simpa [hEntry] using ih hParent hHere others
          · simp [hNext]

theorem entry_erase (tree : FileTree) (location : Location) :
    (tree.erase location).entry = tree.entry := by
  unfold erase
  split
  · rfl
  · rfl
  · rfl
  · split <;> rfl

/-- Erasing leaves nothing in a place and below it. -/
theorem look_erase (hLocation : location ≠ []) (other : Location) :
    (tree.erase location).look other =
      if location <+: other then none else tree.look other := by
  induction location generalizing tree other with
  | nil => exact absurd rfl hLocation
  | cons first rest ih =>
    cases tree with
    | file bytes => cases other <;> simp [erase]
    | dir entries =>
      cases other with
      | nil =>
        rw [look_nil, look_nil, entry_erase, if_neg (by simp)]
      | cons next others =>
        simp only [List.cons_prefix_cons]
        cases rest with
        | nil =>
          rw [erase, look_dir_cons, look_dir_cons, lookup_filter_ne]
          rcases eq_or_ne next first with rfl | hNext
          · simp
          · simp [hNext, hNext.symm]
        | cons second more =>
          rw [erase]
          cases hEntry : entries.lookup first with
          | none =>
            rcases eq_or_ne next first with rfl | hNext
            · simp [hEntry]
            · simp [hNext.symm]
          | some below =>
            simp only [look_dir_cons, lookup_setEntry]
            rcases eq_or_ne next first with rfl | hNext
            · simp [hEntry, ih]
            · simp [hNext, hNext.symm]

end FileTree

end TryGo.Build
