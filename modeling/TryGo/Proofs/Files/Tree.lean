import TryGo.Build.FileTree
import Mathlib.Data.List.Nodup

/-! Trees of files as a file system has them: the entries of a directory have different names, and
no name is one that a path treats as a step. -/
namespace TryGo.Build

/-- Whether a text can name an entry of a directory. The directory itself and its parent have
names that are taken. -/
def IsName (name : String) : Prop := name ≠ "" ∧ name ≠ "." ∧ name ≠ ".."

instance (name : String) : Decidable (IsName name) := by
  unfold IsName
  infer_instance

namespace FileTree

/-- A tree whose directories have entries of different names that can be names. -/
inductive Named : FileTree → Prop where
  | file (bytes : List UInt8) : Named (.file bytes)
  | dir {entries : List (String × FileTree)} (hDistinct : (entries.map Prod.fst).Nodup)
      (hNames : ∀ entry ∈ entries, IsName entry.1)
      (hBelow : ∀ entry ∈ entries, Named entry.2) : Named (.dir entries)

mutual

/-- Whether a tree is one of a file system, by a walk over it. -/
def isNamed : FileTree → Bool
  | .file _ => true
  | .dir entries =>
      decide (entries.map Prod.fst).Nodup && entries.all (fun entry => decide (IsName entry.1))
        && allNamed entries

def allNamed : List (String × FileTree) → Bool
  | [] => true
  | (_, tree) :: rest => tree.isNamed && allNamed rest

end

mutual

theorem named_of_isNamed : (tree : FileTree) → tree.isNamed = true → tree.Named
  | .file bytes, _ => .file bytes
  | .dir entries, hWalk => by
      simp only [isNamed, Bool.and_eq_true, decide_eq_true_eq, List.all_eq_true] at hWalk
      exact .dir hWalk.1.1 hWalk.1.2 (named_of_allNamed entries hWalk.2)

theorem named_of_allNamed : (entries : List (String × FileTree)) → allNamed entries = true →
    ∀ entry ∈ entries, entry.2.Named
  | [], _ => List.forall_mem_nil _
  | (_, tree) :: rest, hWalk => by
      obtain ⟨hTree, hRest⟩ := Bool.and_eq_true_iff.mp hWalk
      exact List.forall_mem_cons.mpr ⟨named_of_isNamed tree hTree, named_of_allNamed rest hRest⟩

end

theorem allNamed_of_forall {entries : List (String × FileTree)}
    (hEach : ∀ entry ∈ entries, entry.2.isNamed = true) : allNamed entries = true := by
  induction entries with
  | nil => rfl
  | cons entry rest ih =>
    obtain ⟨hFirst, hRest⟩ := List.forall_mem_cons.mp hEach
    rw [allNamed, hFirst, ih hRest]
    rfl

theorem Named.isNamed {tree : FileTree} (hTree : tree.Named) : tree.isNamed = true := by
  induction hTree with
  | file => rfl
  | dir hDistinct hNames _ ih =>
    simp only [FileTree.isNamed, Bool.and_eq_true, decide_eq_true_eq, List.all_eq_true]
    exact ⟨⟨hDistinct, hNames⟩, allNamed_of_forall ih⟩

instance (tree : FileTree) : Decidable tree.Named :=
  decidable_of_iff (tree.isNamed = true) ⟨named_of_isNamed tree, Named.isNamed⟩

end FileTree

theorem lookup_cons_eq (first : String) (tree : FileTree) (rest : List (String × FileTree))
    (name : String) :
    ((first, tree) :: rest).lookup name = if name = first then some tree else rest.lookup name := by
  by_cases hName : name = first
  · simp [hName]
  · simp only [List.lookup_cons, beq_eq_false_iff_ne.mpr hName, if_neg hName]

/-- An entry is what its name stands for if no other one has that name. -/
theorem lookup_of_mem {entries : List (String × FileTree)} {name : String} {tree : FileTree}
    (hDistinct : (entries.map Prod.fst).Nodup) (hMem : (name, tree) ∈ entries) :
    entries.lookup name = some tree := by
  induction entries with
  | nil => cases hMem
  | cons first rest ih =>
    obtain ⟨hFirst, hRest⟩ := List.nodup_cons.mp hDistinct
    rcases List.mem_cons.mp hMem with rfl | hLater
    · simp
    · have hOther : name ≠ first.1 := fun hSame => hFirst (List.mem_map.mpr ⟨_, hLater, hSame⟩)
      rw [lookup_cons_eq, if_neg hOther]
      exact ih hRest hLater

theorem mem_of_lookup {entries : List (String × FileTree)} {name : String} {tree : FileTree}
    (hEntry : entries.lookup name = some tree) : (name, tree) ∈ entries := by
  induction entries with
  | nil => cases hEntry
  | cons first rest ih =>
    rw [lookup_cons_eq] at hEntry
    split at hEntry
    · next hSame =>
      rw [hSame, ← Option.some.inj hEntry]
      exact List.mem_cons_self
    · exact List.mem_cons_of_mem _ (ih hEntry)

/-- What stands in a tree of a file system is one. -/
theorem FileTree.Named.get? {tree below : FileTree} {location : Location} (hTree : tree.Named)
    (hBelow : tree.get? location = some below) : below.Named := by
  induction hTree generalizing location with
  | file bytes =>
    cases location with
    | nil => exact Option.some.inj hBelow ▸ .file bytes
    | cons => cases hBelow
  | @dir entries hDistinct hNames hNamed ih =>
    cases location with
    | nil => exact Option.some.inj hBelow ▸ .dir hDistinct hNames hNamed
    | cons name rest =>
      rw [FileTree.get?] at hBelow
      cases hEntry : entries.lookup name with
      | none => simp [hEntry] at hBelow
      | some next =>
        simp only [hEntry] at hBelow
        exact ih _ (mem_of_lookup hEntry) hBelow

end TryGo.Build
