import TryGo.Proofs.Files.Walk

/-! How a build changes a disk. Directories are made where nothing is, and files are written where
no directory is. Whatever is a directory or a file stays one, so that a path leads where it led,
and what it leads to changes only if it is written. -/
namespace TryGo.Build.Disk

/-- Whether a disk has become another one by making directories and writing files, each in some
places only. -/
structure Grows (made written : Location → Prop) (before after : Disk) : Prop where
  here : after.here = before.here
  look : ∀ location, after.look location = before.look location ∨
    (made location ∧ before.look location = none ∧ after.look location = some .dir) ∨
    (written location ∧ before.look location ≠ some .dir ∧
      ∃ bytes, after.look location = some (.file bytes))

namespace Grows

variable {made written made' written' : Location → Prop} {before middle after : Disk}
  {location start : Location} {names : List String} {path : Path} {bytes : List UInt8}

theorem refl (made written : Location → Prop) (disk : Disk) : Grows made written disk disk :=
  ⟨rfl, fun _ => .inl rfl⟩

/-- What grew twice has grown. -/
theorem trans (hFirst : Grows made written before middle)
    (hSecond : Grows made written middle after) : Grows made written before after := by
  refine ⟨hSecond.here.trans hFirst.here, fun location => ?_⟩
  rcases hFirst.look location with hSame | ⟨hMade, hNone, hDir⟩ | ⟨hWritten, hNoDir, old, hFile⟩
  · rw [← hSame]
    exact hSecond.look location
  · rcases hSecond.look location with hSame | ⟨_, hAgain, _⟩ | ⟨_, hAgain, _⟩
    · exact .inr (.inl ⟨hMade, hNone, hSame.trans hDir⟩)
    · simp [hDir] at hAgain
    · exact absurd hDir hAgain
  · rcases hSecond.look location with hSame | ⟨_, hAgain, _⟩ | ⟨_, _, hNew⟩
    · exact .inr (.inr ⟨hWritten, hNoDir, old, hSame.trans hFile⟩)
    · simp [hFile] at hAgain
    · exact .inr (.inr ⟨hWritten, hNoDir, hNew⟩)

/-- What grew within some places has grown within more. -/
theorem mono (hGrows : Grows made written before after)
    (hMade : ∀ location, made location → made' location)
    (hWritten : ∀ location, written location → written' location) :
    Grows made' written' before after :=
  ⟨hGrows.here, fun location => (hGrows.look location).imp_right
    (Or.imp (And.imp_left (hMade location)) (And.imp_left (hWritten location)))⟩

/-- A path starts where it did. -/
theorem startOf (hGrows : Grows made written before after) (path : Path) :
    after.startOf path = before.startOf path := by
  simp only [Disk.startOf, hGrows.here]

/-! ### What is seen later -/

/-- What is neither made nor written is as it was. -/
theorem look_eq (hGrows : Grows made written before after) (hMade : ¬ made location)
    (hWritten : ¬ written location) : after.look location = before.look location := by
  rcases hGrows.look location with hSame | ⟨hMake, _⟩ | ⟨hWrite, _⟩
  · exact hSame
  · exact absurd hMake hMade
  · exact absurd hWrite hWritten

/-- A directory stays one. -/
theorem look_dir (hGrows : Grows made written before after)
    (hDir : before.look location = some .dir) : after.look location = some .dir := by
  rcases hGrows.look location with hSame | ⟨_, hNone, _⟩ | ⟨_, hNoDir, _⟩
  · exact hSame.trans hDir
  · simp [hDir] at hNone
  · exact absurd hDir hNoDir

/-- A file stays one, whatever is written into it. -/
theorem exists_look_file (hGrows : Grows made written before after)
    (hFile : before.look location = some (.file bytes)) :
    ∃ later, after.look location = some (.file later) := by
  rcases hGrows.look location with hSame | ⟨_, hNone, _⟩ | ⟨_, _, hLater⟩
  · exact ⟨bytes, hSame.trans hFile⟩
  · simp [hFile] at hNone
  · exact hLater

/-- What was there stays there. -/
theorem look_ne_none (hGrows : Grows made written before after)
    (hThere : before.look location ≠ none) : after.look location ≠ none := by
  rcases hGrows.look location with hSame | ⟨_, _, hDir⟩ | ⟨_, _, _, hFile⟩
  · rwa [hSame]
  · simp [hDir]
  · simp [hFile]

/-- A file that is not written is the same file before and after. -/
theorem look_file_iff (hGrows : Grows made written before after) (hWritten : ¬ written location) :
    after.look location = some (.file bytes) ↔ before.look location = some (.file bytes) := by
  rcases hGrows.look location with hSame | ⟨_, hNone, hDir⟩ | ⟨hWrite, _⟩
  · rw [hSame]
  · simp [hNone, hDir]
  · exact absurd hWrite hWritten

/-- A way that is barred stays barred. -/
theorem barred (hGrows : Grows made written before after) (hBarred : before.Barred location) :
    after.Barred location := by
  obtain ⟨above, name, rest, bytes, hLocation, hFile⟩ := hBarred
  obtain ⟨later, hLater⟩ := hGrows.exists_look_file hFile
  exact ⟨above, name, rest, later, hLocation, hLater⟩

/-- The way to a location is barred as before if nothing is written on it. -/
theorem barred_iff (hGrows : Grows made written before after)
    (hWritten : ∀ above, above <+: location → ¬ written above) :
    after.Barred location ↔ before.Barred location := by
  refine ⟨?_, hGrows.barred⟩
  rintro ⟨above, name, rest, bytes, rfl, hFile⟩
  exact ⟨above, name, rest, bytes, rfl,
    (hGrows.look_file_iff (hWritten _ (List.prefix_append _ _))).mp hFile⟩

/-! ### Where paths lead later -/

/-- A path leads where it led, and is barred by a file if it was. -/
theorem follow_eq (hGrows : Grows made written before after)
    (hFollow : before.follow start names ≠ .error .noEntry) :
    after.follow start names = before.follow start names := by
  induction names generalizing start with
  | nil => rfl
  | cons name rest ih =>
    rw [follow_cons] at hFollow
    rw [follow_cons, follow_cons]
    cases hStart : before.look start with
    | none => simp [hStart] at hFollow
    | some entry =>
      cases entry with
      | file bytes =>
        obtain ⟨later, hLater⟩ := hGrows.exists_look_file hStart
        simp only [hLater]
      | dir =>
        simp only [hStart] at hFollow
        simp only [hGrows.look_dir hStart]
        split at hFollow
        · next hStay =>
          rw [if_pos hStay, if_pos hStay]
          exact ih hFollow
        · next hMove =>
          rw [if_neg hMove, if_neg hMove]
          split at hFollow
          · next hUp =>
            rw [if_pos hUp, if_pos hUp]
            exact ih hFollow
          · next hDown =>
            rw [if_neg hDown, if_neg hDown]
            split at hFollow
            · next hThere =>
              have hLater := hGrows.look_ne_none (Option.isSome_iff_ne_none.mp hThere)
              rw [if_pos hThere, if_pos (Option.isSome_iff_ne_none.mpr hLater)]
              exact ih hFollow
            · exact absurd rfl hFollow

/-- A path that leads to nothing still does if what is missing on the way is not made and not
written. -/
theorem follow_eq_noEntry (hGrows : Grows made written before after)
    (hStart : before.look start ≠ none)
    (hMissing : ∀ location, before.missingOn start names = some location →
      ¬ made location ∧ ¬ written location)
    (hFollow : before.follow start names = .error .noEntry) :
    after.follow start names = .error .noEntry := by
  induction names generalizing start with
  | nil => cases hFollow
  | cons name rest ih =>
    rw [follow_cons] at hFollow
    rw [missingOn] at hMissing
    rw [follow_cons]
    split at hFollow
    · next hNone => exact absurd hNone hStart
    · cases hFollow
    · next hDir =>
      simp only [hGrows.look_dir hDir]
      split at hFollow
      · next hStay =>
        rw [if_pos hStay] at hMissing ⊢
        exact ih hStart hMissing hFollow
      · next hMove =>
        rw [if_neg hMove] at hMissing ⊢
        split at hFollow
        · next hUp =>
          rw [if_pos hUp] at hMissing ⊢
          exact ih (look_dropLast_ne_none hStart) hMissing hFollow
        · next hDown =>
          rw [if_neg hDown] at hMissing ⊢
          split at hFollow
          · next hThere =>
            have hNext := Option.isSome_iff_ne_none.mp hThere
            rw [if_pos hThere] at hMissing
            rw [if_pos (Option.isSome_iff_ne_none.mpr (hGrows.look_ne_none hNext))]
            exact ih hNext hMissing hFollow
          · next hNone =>
            rw [if_neg hNone] at hMissing
            obtain ⟨hUnmade, hUnwritten⟩ := hMissing _ rfl
            rw [hGrows.look_eq hUnmade hUnwritten, if_neg hNone]

/-- A path that leads where it led reads as it did if nothing is written there. -/
theorem read_eq (hGrows : Grows made written before after)
    (hStart : before.look (before.startOf path) ≠ none)
    (hFollow : after.follow (before.startOf path) path.parts =
      before.follow (before.startOf path) path.parts)
    (hWritten : ∀ location, before.follow (before.startOf path) path.parts = .ok location →
      ¬ written location) : after.read path = before.read path := by
  rw [Disk.read_eq, Disk.read_eq, hGrows.startOf, hFollow]
  cases hLead : before.follow (before.startOf path) path.parts with
  | error errno => rfl
  | ok location =>
    simp only
    cases hThere : before.look location with
    | none => exact absurd hThere (look_of_follow hStart hLead)
    | some entry =>
      cases entry with
      | dir => simp only [hGrows.look_dir hThere]
      | file bytes => simp only [(hGrows.look_file_iff (hWritten _ hLead)).mpr hThere]

/-! ### What makes a disk grow -/

/-- Making a directory makes the place of its path. -/
theorem of_makeDir (hMake : before.makeDir path = .ok after)
    (hMade : ∀ location, before.place path = .ok (some location) → made location) :
    Grows made written before after := by
  obtain ⟨place, hPlace, hNone, rfl, hLook⟩ := makeDir_inv hMake
  refine ⟨rfl, fun location => ?_⟩
  rw [hLook]
  split
  · next hHere => exact .inr (.inl ⟨hHere ▸ hMade _ hPlace, hHere ▸ hNone, rfl⟩)
  · exact .inl rfl

/-- Writing a file writes the place of its path. -/
theorem of_write (hWrite : before.write path bytes = .ok after)
    (hWritten : ∀ location, before.place path = .ok (some location) → written location) :
    Grows made written before after := by
  obtain ⟨place, hPlace, hNoDir, rfl, hLook⟩ := write_inv hWrite
  refine ⟨rfl, fun location => ?_⟩
  rw [hLook]
  split
  · next hHere =>
    exact .inr (.inr ⟨hHere ▸ hWritten _ hPlace, hHere ▸ hNoDir, bytes, rfl⟩)
  · exact .inl rfl

end Grows

/-! ### Writing twice -/

variable {disk middle : Disk} {path : Path} {old : List UInt8}

/-- Whether a file can be written does not depend on what is written. -/
theorem write_error {error : FileError} (hWrite : disk.write path old = .error error)
    (new : List UInt8) : disk.write path new = .error error := by
  unfold write at hWrite ⊢
  split
  · next hPlace => simpa [hPlace] using hWrite
  · next hPlace => simpa [hPlace] using hWrite
  · next location hPlace =>
    simp only [hPlace] at hWrite
    split at hWrite
    · next hDir => simpa [hDir] using hWrite
    · cases hWrite

/-- A file that was written can be written again, and then only the new bytes count. -/
theorem write_again (hWrite : disk.write path old = .ok middle) (new : List UInt8) :
    middle.write path new = disk.write path new := by
  obtain ⟨location, hPlace, hNoDir, rfl, hLook⟩ := write_inv hWrite
  obtain ⟨names, name, above, hParts, hFollow, hAbove, rfl⟩ := place_inv hPlace
  have hGrows : Grows (fun _ => False) (· = above ++ [name]) disk _ :=
    Grows.of_write hWrite fun _ hSame => Option.some.inj (Except.ok.inj (hSame.symm.trans hPlace))
  have hAgain : ({ disk with tree := disk.tree.put (above ++ [name]) (.file old) } : Disk).place
      path = disk.place path := by
    rw [place_eq hParts, place_eq hParts, hGrows.startOf,
      hGrows.follow_eq (by simp [hFollow]), hFollow]
    simp only [hGrows.look_dir hAbove, hAbove]
  rw [write_of_place (hAgain.trans hPlace), write_of_place hPlace, hLook, if_pos rfl,
    if_neg hNoDir, if_neg (by simp), FileTree.put_put]

end TryGo.Build.Disk
