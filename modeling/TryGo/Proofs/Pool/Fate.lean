import TryGo.Proofs.Pool.Guarantee

/-! What becomes of a task is settled when it starts. The others write nowhere on the way to its
target and make no directory in its place. So a file on the way stays one, a missing directory
is made by someone, and the task ends as it would end without the others. -/
namespace TryGo.Build

open Disk (Grows)

/-- Whether anything may be done to a disk. -/
def Anything (_ _ : Disk) : Prop := True

variable {made written : Location → Prop} {initial disk after : Disk} {path : Path}
  {location : Location}

/-! ### One directory -/

/-- A directory that is there, or that can be made in the one above it. -/
theorem makeDir_of_ready (hPlain : path.Plain)
    (hAbove : disk.look (disk.startOf path ++ path.parts.dropLast) = some .dir)
    (hNoFile : ∀ bytes, disk.look (disk.startOf path ++ path.parts) ≠ some (.file bytes)) :
    (∃ after, disk.makeDir path = .ok after) ∨
      (disk.makeDir path = .error .exists ∧
        disk.look (disk.startOf path ++ path.parts) = some .dir) := by
  rcases List.eq_nil_or_concat' path.parts with hNil | ⟨names, name, hParts⟩
  · refine .inr ⟨Disk.makeDir_of_none (Disk.place_of_nil hNil), ?_⟩
    simpa [hNil] using hAbove
  · have hPlace := Disk.place_of_dir hParts hPlain (by simpa [hParts] using hAbove)
    rw [hParts, ← List.append_assoc] at hNoFile ⊢
    rw [Disk.makeDir_of_place hPlace]
    cases hThere : disk.look (disk.startOf path ++ names ++ [name]) with
    | none => exact .inl ⟨_, rfl⟩
    | some entry =>
      cases entry with
      | file bytes => exact absurd hThere (hNoFile bytes)
      | dir => exact .inr ⟨rfl, rfl⟩

/-- A plain path leads to the directory that it names. -/
theorem isDir_of_look (hPlain : path.Plain)
    (hDir : disk.look (disk.startOf path ++ path.parts) = some .dir) : disk.isDir path = true := by
  rw [Disk.isDir_eq, Disk.follow_of_look hPlain (by simp [hDir])]
  simpa using hDir

/-- Whether a disk has grown, and has a directory at a location. -/
structure Reached (made written : Location → Prop) (initial : Disk) (location : Location)
    (disk : Disk) : Prop where
  grows : Grows made written initial disk
  look : disk.look location = some .dir

/-- What was reached stays so. -/
theorem Reached.later (hReached : Reached made written initial location disk)
    (hGrows : Grows made written disk after) : Reached made written initial location after :=
  ⟨hReached.grows.trans hGrows, hGrows.look_dir hReached.look⟩

/-- Whether a plain path leads to a location by way of another one. -/
structure Spells (disk : Disk) (path : Path) (above location : Location) : Prop where
  plain : path.Plain
  above : disk.startOf path ++ path.parts.dropLast = above
  location : disk.startOf path ++ path.parts = location

section Directory

variable {above : Location}

/-- An attempt to make a directory in one that is there makes it or finds it. -/
theorem makeDir_reached (hSpells : Spells initial path above location)
    (hMade : path.parts ≠ [] → made location) (hUnwritten : ¬ written location)
    (hNoFile : ∀ bytes, initial.look location ≠ some (.file bytes))
    (hAbove : Reached made written initial above disk) :
    (∃ after, disk.makeDir path = .ok after ∧ Reached made written initial location after) ∨
      (disk.makeDir path = .error .exists ∧ Reached made written initial location disk) := by
  obtain ⟨hPlain, rfl, rfl⟩ := hSpells
  have hStart := hAbove.grows.startOf path
  have hNow : ∀ bytes, disk.look (disk.startOf path ++ path.parts) ≠ some (.file bytes) :=
    fun bytes hFile =>
      hNoFile bytes ((hAbove.grows.look_file_iff hUnwritten).mp (hStart ▸ hFile))
  rcases makeDir_of_ready hPlain (hStart ▸ hAbove.look) hNow with ⟨after, hDo⟩ | ⟨hDo, hDir⟩
  · have hGrows : Grows made written disk after := Grows.of_makeDir hDo fun other hOther => by
      obtain ⟨_, _, _, hParts, _⟩ := Disk.place_inv hOther
      rw [Disk.eq_of_place hPlain hOther, hStart]
      exact hMade (by simp [hParts])
    obtain ⟨place, hPlace, -, -, hLook⟩ := Disk.makeDir_inv hDo
    have hDir : after.look (initial.startOf path ++ path.parts) = some .dir := by
      rw [hLook, Disk.eq_of_place hPlain hPlace, hStart, if_pos rfl]
    exact .inl ⟨after, hDo, hAbove.grows.trans hGrows, hDir⟩
  · exact .inr ⟨hDo, hAbove.grows, hStart ▸ hDir⟩

/-- Whether a directory is there after an attempt to make it. -/
def Tried (made written : Location → Prop) (initial : Disk) (location : Location)
    (answer : Except Errno Unit) (after : Disk) : Prop :=
  (answer = .ok () ∨ answer = .error .exists) ∧ Reached made written initial location after

/-- What holds after any such attempt holds after one that is about to be made. -/
theorem makeDir_tried (post : Except Errno Unit → Disk → Prop)
    (hSpells : Spells initial path above location) (hMade : path.parts ≠ [] → made location)
    (hUnwritten : ¬ written location)
    (hNoFile : ∀ bytes, initial.look location ≠ some (.file bytes))
    (hAbove : Reached made written initial above disk)
    (hPost : ∀ answer later, Tried made written initial location answer later →
      post answer later) :
    (∃ after, disk.makeDir path = .ok after ∧ Anything disk after ∧
      ∀ later, Grows made written after later → post (.ok ()) later) ∨
    (∃ errno, disk.makeDir path = .error errno ∧ Anything disk disk ∧
      ∀ later, Grows made written disk later → post (.error errno) later) := by
  refine (makeDir_reached hSpells hMade hUnwritten hNoFile hAbove).imp ?_ ?_
  · rintro ⟨after, hDo, hReached⟩
    exact ⟨after, hDo, trivial, fun later hLater =>
      hPost _ later ⟨.inl rfl, hReached.later hLater⟩⟩
  · rintro ⟨hDo, hReached⟩
    exact ⟨_, hDo, trivial, fun later hLater => hPost _ later ⟨.inr rfl, hReached.later hLater⟩⟩

/-- After a directory was made or found, it is there. -/
theorem settleDir_assured {answer : Except Errno Unit}
    (hSpells : Spells initial path above location)
    (hTried : Tried made written initial location answer disk) :
    (settleDir path answer).Assured (Grows made written) Anything
      (fun result after => result = .ok () ∧ Reached made written initial location after) disk := by
  obtain ⟨hAnswer, hReached⟩ := hTried
  obtain ⟨hPlain, rfl, rfl⟩ := hSpells
  rcases hAnswer with rfl | rfl
  · exact Script.assured_pure fun later hLater => ⟨rfl, hReached.later hLater⟩
  · have hCheck : (ask fun disk => disk.isDir path).Assured (Grows made written) Anything
        (fun there after => there = true ∧
          Reached made written initial (initial.startOf path ++ path.parts) after) disk := by
      refine assured_ask fun now hNow => ⟨trivial, fun later hLater => ?_⟩
      have hNow := hReached.later hNow
      exact ⟨isDir_of_look hPlain (hNow.grows.startOf path ▸ hNow.look), hNow.later hLater⟩
    refine hCheck.bind (Grows.refl _ _) fun there after hThere => ?_
    rw [if_pos hThere.1]
    exact Script.assured_pure fun later hLater => ⟨rfl, hThere.2.later hLater⟩

/-- Making a directory in one that is there ends with that directory. -/
theorem dirScript_assured (hSpells : Spells initial path above location)
    (hMade : path.parts ≠ [] → made location) (hUnwritten : ¬ written location)
    (hNoFile : ∀ bytes, initial.look location ≠ some (.file bytes))
    (hAbove : Reached made written initial above disk) :
    (dirScript path).Assured (Grows made written) Anything
      (fun result after => result = .ok () ∧ Reached made written initial location after) disk := by
  have hAttempt : (attempt fun disk => disk.makeDir path).Assured (Grows made written) Anything
      (Tried made written initial location) disk :=
    assured_attempt fun now hNow => makeDir_tried _ hSpells hMade hUnwritten hNoFile
      (hAbove.later hNow) fun _ _ => id
  exact hAttempt.bind (Grows.refl _ _) fun _ _ hTried => settleDir_assured hSpells hTried

end Directory

/-! ### All directories above a target -/

/-- A directory in one that is missing cannot be made. -/
theorem makeDir_of_missing {above : Location} (hSpells : Spells initial path above location)
    (hStart : initial.look (initial.startOf path) = some .dir) (hMissing : disk.look above = none)
    (hFree : ¬ initial.Barred above) (hUnwritten : ∀ other, other <+: above → ¬ written other)
    (hGrows : Grows made written initial disk) : disk.makeDir path = .error .noEntry := by
  obtain ⟨hPlain, rfl, rfl⟩ := hSpells
  rw [← hGrows.startOf path] at hStart hMissing hFree hUnwritten
  rcases List.eq_nil_or_concat' path.parts with hNil | ⟨names, name, hParts⟩
  · have hDir := hGrows.look_dir hStart
    rw [hNil, List.dropLast_nil, List.append_nil, hDir] at hMissing
    cases hMissing
  · rw [hParts, List.dropLast_concat] at hMissing hFree hUnwritten
    exact Disk.makeDir_of_error (Disk.place_of_missing hParts hPlain (hGrows.look_dir hStart)
      hMissing ((hGrows.barred_iff hUnwritten).not.mpr hFree))

/-- An attempt to make a directory on a way that no file bars makes it or finds it, unless the one
above it is missing. -/
theorem attempt_makeDir {above : Location} (hSpells : Spells initial path above location)
    (hStart : initial.look (initial.startOf path) = some .dir)
    (hMade : path.parts ≠ [] → made location)
    (hUnwritten : ∀ other, other <+: location → ¬ written other)
    (hPrefix : above <+: location) (hFree : ¬ initial.Barred above)
    (hAboveNoFile : ∀ bytes, initial.look above ≠ some (.file bytes))
    (hNoFile : ∀ bytes, initial.look location ≠ some (.file bytes))
    (hGrows : Grows made written initial disk) :
    (attempt fun disk => disk.makeDir path).Assured (Grows made written) Anything
      (fun answer after => Tried made written initial location answer after ∨
        (answer = .error .noEntry ∧ Grows made written initial after)) disk := by
  refine assured_attempt fun now hNow => ?_
  have hNow := hGrows.trans hNow
  cases hParent : now.look above with
  | none =>
    have hMissing := makeDir_of_missing hSpells hStart hParent hFree
      (fun other hOther => hUnwritten other (hOther.trans hPrefix)) hNow
    exact .inr ⟨_, hMissing, trivial, fun later hLater => .inr ⟨rfl, hNow.trans hLater⟩⟩
  | some entry =>
    cases entry with
    | file bytes =>
      exact absurd ((hNow.look_file_iff (hUnwritten _ hPrefix)).mp hParent) (hAboveNoFile bytes)
    | dir =>
      refine makeDir_tried (fun answer after => Tried made written initial location answer after ∨
        (answer = .error .noEntry ∧ Grows made written initial after)) hSpells hMade
        (hUnwritten _ List.prefix_rfl) hNoFile ⟨hNow, hParent⟩ fun _ _ => .inl

section Way

variable {anchor : Anchor} {names : List String} {start : Location}

/-- Making the directories of a way that no file bars ends with all of them. -/
theorem dirsScript_assured (hAnchor : ∀ parts, initial.startOf ⟨anchor, parts⟩ = start)
    (hStart : initial.look start = some .dir) (hNames : ∀ name ∈ names, IsName name)
    (hMade : ∀ above, above <+: start ++ names.reverse → above ≠ start → made above)
    (hUnwritten : ∀ above, above <+: start ++ names.reverse → ¬ written above)
    (hFree : ¬ initial.Barred (start ++ names.reverse))
    (hNoFile : ∀ bytes, initial.look (start ++ names.reverse) ≠ some (.file bytes))
    (hGrows : Grows made written initial disk) :
    (dirsScript anchor names).Assured (Grows made written) Anything
      (fun result after => result = .ok () ∧
        Reached made written initial (start ++ names.reverse) after) disk := by
  induction names generalizing disk with
  | nil =>
    have hSpells : Spells initial ⟨anchor, []⟩ start (start ++ [].reverse) :=
      ⟨by simp [Path.Plain], by simp [hAnchor], by simp [hAnchor]⟩
    exact dirScript_assured hSpells (fun hParts => absurd rfl hParts)
      (hUnwritten _ List.prefix_rfl) hNoFile ⟨hGrows, hGrows.look_dir hStart⟩
  | cons name above ih =>
    have hSpells : Spells initial ⟨anchor, (name :: above).reverse⟩ (start ++ above.reverse)
        (start ++ (name :: above).reverse) :=
      ⟨fun part hMem => hNames part (List.mem_reverse.mp hMem), by simp [hAnchor],
        by simp [hAnchor]⟩
    have hHere := hMade _ List.prefix_rfl (by simp)
    have hBelow : start ++ (name :: above).reverse = start ++ above.reverse ++ [name] := by simp
    have hAbovePrefix : start ++ above.reverse <+: start ++ (name :: above).reverse := by
      rw [hBelow]
      exact List.prefix_append _ _
    have hAboveFree : ¬ initial.Barred (start ++ above.reverse) := fun hBarred =>
      hFree (hBelow ▸ Disk.barred_concat_iff.mpr (.inl hBarred))
    have hAboveNoFile : ∀ bytes, initial.look (start ++ above.reverse) ≠ some (.file bytes) :=
      fun bytes hFile => hFree (hBelow ▸ Disk.barred_concat_iff.mpr (.inr ⟨bytes, hFile⟩))
    have hAttempt := attempt_makeDir hSpells (hAnchor _ ▸ hStart) (fun _ => hHere) hUnwritten
      hAbovePrefix hAboveFree hAboveNoFile hNoFile hGrows
    refine hAttempt.bind (Grows.refl _ _) fun answer middle hAnswer => ?_
    rcases hAnswer with hTried | ⟨rfl, hMiddle⟩
    · obtain ⟨rfl | rfl, hReached⟩ := hTried
      · exact settleDir_assured hSpells ⟨.inl rfl, hReached⟩
      · exact settleDir_assured hSpells ⟨.inr rfl, hReached⟩
    · have hAboveDirs := ih (fun next hMem => hNames next (List.mem_cons_of_mem _ hMem))
        (fun other hOther => hMade other (hOther.trans hAbovePrefix))
        (fun other hOther => hUnwritten other (hOther.trans hAbovePrefix)) hAboveFree hAboveNoFile
        hMiddle
      refine hAboveDirs.bind (Grows.refl _ _) fun result later hResult => ?_
      obtain ⟨rfl, hReached⟩ := hResult
      exact dirScript_assured hSpells (fun _ => hHere) (hUnwritten _ List.prefix_rfl) hNoFile
        hReached

end Way

/-- A directory whose making is refused, whatever the others do, is the end of the way. -/
theorem dirsScript_refused {errno : Errno} (hErrno : errno ≠ .noEntry) (hParts : path.parts ≠ [])
    (hRefused : ∀ now, Grows made written initial now →
      now.makeDir path = .error errno ∧ now.isDir path = false)
    (hGrows : Grows made written initial disk) :
    (dirsScript path.anchor path.parts.reverse).Assured (Grows made written) Anything
      (fun result _ => result = .error (.ofPath errno path)) disk := by
  obtain ⟨name, above, hNames⟩ :=
    List.exists_cons_of_ne_nil (mt List.reverse_eq_nil_iff.mp hParts)
  have hPath : (⟨path.anchor, (name :: above).reverse⟩ : Path) = path := by
    rw [← hNames, List.reverse_reverse]
  have hAttempt : (attempt fun disk => disk.makeDir path).Assured
      (Grows made written) Anything (fun answer after =>
        answer = .error errno ∧ Grows made written initial after) disk := by
    refine assured_attempt fun now hNow => .inr ?_
    have hNow := hGrows.trans hNow
    exact ⟨errno, (hRefused now hNow).1, trivial, fun later hLater => ⟨rfl, hNow.trans hLater⟩⟩
  have hCheck : ∀ middle, Grows made written initial middle →
      (checkScript path errno).Assured (Grows made written) Anything
        (fun result _ => result = .error (.ofPath errno path)) middle := by
    intro middle hMiddle
    have hAsk : (ask fun disk => disk.isDir path).Assured
        (Grows made written) Anything (fun there _ => there = false) middle :=
      assured_ask fun now hNow =>
        ⟨trivial, fun _ _ => (hRefused now (hMiddle.trans hNow)).2⟩
    refine hAsk.bind (Grows.refl _ _) fun there _ hThere => ?_
    rw [hThere]
    exact Script.assured_pure fun _ _ => rfl
  rw [hNames, dirsScript, hPath]
  refine hAttempt.bind (Grows.refl _ _) fun answer middle hAnswer => ?_
  obtain ⟨rfl, hMiddle⟩ := hAnswer
  cases errno with
  | noEntry => exact absurd rfl hErrno
  | «exists» => exact hCheck middle hMiddle
  | notDir => exact hCheck middle hMiddle
  | isDir => exact hCheck middle hMiddle

/-- A file above the directory refuses it, whatever else is done. -/
theorem refused_of_barred (hPlain : path.Plain)
    (hStart : initial.look (initial.startOf path) = some .dir)
    (hBarred : initial.Barred (initial.startOf path ++ path.parts))
    (hUnwritten : ∀ above, above <+: initial.startOf path ++ path.parts → ¬ written above)
    (hGrows : Grows made written initial disk) :
    disk.makeDir path = .error .notDir ∧ disk.isDir path = false := by
  have hNow := (hGrows.barred_iff hUnwritten).mpr hBarred
  have hDir := hGrows.look_dir hStart
  rw [← hGrows.startOf path] at hNow hDir
  constructor
  · rcases List.eq_nil_or_concat' path.parts with hNil | ⟨names, name, hParts⟩
    · rw [hNil, List.append_nil] at hNow
      simp [hNow.look_eq_none] at hDir
    · rw [hParts, ← List.append_assoc] at hNow
      exact Disk.makeDir_of_error (Disk.place_of_barred hParts hPlain hDir hNow)
  · rw [Disk.isDir_eq, Disk.follow_of_barred hDir hPlain hNow]

/-- A file in the place of the directory refuses it, whatever else is done. -/
theorem refused_of_file {bytes : List UInt8} (hPlain : path.Plain)
    (hStart : initial.look (initial.startOf path) = some .dir)
    (hFile : initial.look (initial.startOf path ++ path.parts) = some (.file bytes))
    (hUnwritten : ¬ written (initial.startOf path ++ path.parts))
    (hGrows : Grows made written initial disk) :
    disk.makeDir path = .error .exists ∧ disk.isDir path = false := by
  have hNow := (hGrows.look_file_iff hUnwritten).mpr hFile
  have hDir := hGrows.look_dir hStart
  rw [← hGrows.startOf path] at hNow hDir
  constructor
  · rcases List.eq_nil_or_concat' path.parts with hNil | ⟨names, name, hParts⟩
    · rw [hNil, List.append_nil, hDir] at hNow
      cases hNow
    · rw [hParts, ← List.append_assoc] at hNow
      have hThere : disk.look (disk.startOf path ++ names ++ name :: []) ≠ none := by
        rw [hNow]
        exact Option.some_ne_none _
      have hAbove := Disk.look_of_look_append hThere
      rw [Disk.makeDir_of_place (Disk.place_of_dir hParts hPlain hAbove), hNow]
      rfl
  · rw [Disk.isDir_eq, Disk.follow_of_look hPlain (by simp [hNow])]
    simp [hNow]

/-! ### Writing the target -/

section Target

variable {above : Location} {bytes : List UInt8}

/-- Whether a file can be written at a location below another one. -/
structure Writable (initial : Disk) (above location : Location) (disk : Disk) : Prop where
  here : disk.here = initial.here
  above : disk.look above = some .dir
  free : disk.look location ≠ some .dir

/-- A place that nobody else makes or writes stays writable. -/
theorem Writable.later (hWritable : Writable initial above location disk) (hMade : ¬ made location)
    (hUnwritten : ¬ written location) (hGrows : Grows made written disk after) :
    Writable initial above location after :=
  ⟨hGrows.here.trans hWritable.here, hGrows.look_dir hWritable.above,
    hGrows.look_eq hMade hUnwritten ▸ hWritable.free⟩

/-- A writable place is written. -/
theorem Writable.write (hSpells : Spells initial path above location)
    (hWritable : Writable initial above location disk) (bytes : List UInt8) :
    ∃ after, disk.write path bytes = .ok after ∧ Writable initial above location after ∧
      after.look location = some (.file bytes) := by
  obtain ⟨hPlain, rfl, rfl⟩ := hSpells
  have hStart : disk.startOf path = initial.startOf path := by
    simp only [Disk.startOf, hWritable.here]
  rcases List.eq_nil_or_concat' path.parts with hNil | ⟨names, name, hParts⟩
  · have hSame := hWritable.above
    rw [hNil, List.dropLast_nil, ← hNil] at hSame
    exact absurd hSame hWritable.free
  · have hAbove := hWritable.above
    have hFree := hWritable.free
    rw [← hStart, hParts, List.dropLast_concat] at hAbove
    rw [← hStart, hParts, ← List.append_assoc] at hFree
    have hPlace := Disk.place_of_dir hParts hPlain hAbove
    have hDo := Disk.write_of_place hPlace bytes
    rw [if_neg hFree] at hDo
    obtain ⟨place, hPlace', _, _, hLook⟩ := Disk.write_inv hDo
    obtain rfl := Option.some.inj (Except.ok.inj (hPlace'.symm.trans hPlace))
    refine ⟨_, hDo, ⟨hWritable.here, ?_, ?_⟩, ?_⟩
    · rw [hLook, ← hStart, hParts, List.dropLast_concat, if_neg (by simp), hAbove]
    · rw [hLook, ← hStart, hParts, ← List.append_assoc, if_pos rfl]
      simp
    · rw [hLook, ← hStart, hParts, ← List.append_assoc, if_pos rfl]

/-- A target in a directory that is there, and that nobody else writes or makes, gets its
bytes. -/
theorem writeScript_assured (hSpells : Spells initial path above location)
    (hMade : ¬ made location) (hUnwritten : ¬ written location)
    (hWritable : Writable initial above location disk) :
    (writeScript path bytes).Assured (Grows made written) Anything
      (fun result after => result = .ok () ∧ after.look location = some (.file bytes)) disk := by
  have hAttempt : ∀ (content : List UInt8) (disk : Disk),
      Writable initial above location disk →
      (attempt fun disk => disk.write path content).Assured (Grows made written) Anything
        (fun result after => result = .ok () ∧ Writable initial above location after ∧
          after.look location = some (.file content)) disk := by
    intro content disk hDisk
    refine assured_attempt fun now hNow => .inl ?_
    obtain ⟨after, hDo, hAfter, hFile⟩ :=
      (hDisk.later hMade hUnwritten hNow).write hSpells content
    exact ⟨after, hDo, trivial, fun later hLater => ⟨rfl, hAfter.later hMade hUnwritten hLater,
      (hLater.look_eq hMade hUnwritten).trans hFile⟩⟩
  refine (hAttempt [] disk hWritable).bind (Grows.refl _ _) fun result middle hResult => ?_
  obtain ⟨rfl, hMiddle, _⟩ := hResult
  exact (hAttempt bytes middle hMiddle).mono id id fun hLast => ⟨hLast.1, hLast.2.2⟩

/-- A target in whose place a directory is cannot be written. -/
theorem writeScript_taken (hSpells : Spells initial path above location)
    (hTaken : initial.look location = some .dir)
    (hAbove : Reached made written initial above disk) :
    (writeScript path bytes).Assured (Grows made written) Anything
      (fun result _ => result = .error (.ofPath .isDir path)) disk := by
  obtain ⟨hPlain, rfl, rfl⟩ := hSpells
  have hOpen : (attempt fun disk => disk.write path []).Assured (Grows made written) Anything
      (fun result _ => result = .error (.ofPath .isDir path)) disk := by
    refine assured_attempt fun now hNow => .inr ⟨_, ?_, trivial, fun _ _ => rfl⟩
    have hHere := hAbove.later hNow
    have hDir := hHere.grows.look_dir hTaken
    have hParent := hHere.look
    rw [← hHere.grows.startOf path] at hDir hParent
    rcases List.eq_nil_or_concat' path.parts with hNil | ⟨names, name, hParts⟩
    · exact Disk.write_of_none (Disk.place_of_nil hNil) []
    · rw [hParts, List.dropLast_concat] at hParent
      rw [hParts, ← List.append_assoc] at hDir
      rw [Disk.write_of_place (Disk.place_of_dir hParts hPlain hParent), if_pos hDir]
  refine hOpen.bind (Grows.refl _ _) fun result _ hResult => ?_
  rw [hResult]
  exact Script.assured_pure fun _ _ => rfl

end Target

/-! ### A whole task -/

section Task

variable {task : Task} {output : String}

/-- Whether a task has a given verdict, and its output in its target if that is a success. -/
def Ends (initial : Disk) (task : Task) (verdict result : Verdict) (disk : Disk) : Prop :=
  result = verdict ∧
    (result = .ok () → ∃ output, (transpilePath initial task.source none).1 = .ok output ∧
      disk.look (task.spot initial.here) = some (.file (Text.encodeUtf8 output)))

/-- What a task is relied on for: it ends as it ends alone. -/
def Fulfills (initial : Disk) (task : Task) : Verdict → Disk → Prop :=
  Ends initial task (runTask initial task).1

/-- A task with one possible verdict has the one that it has alone. -/
theorem fulfills_of_ends (verdict : Verdict)
    (hTask : ∀ disk, Grows made written initial disk →
      (taskScript task).Assured (Grows made written) Anything (Ends initial task verdict) disk)
    (hGrows : Grows made written initial disk) :
    (taskScript task).Assured (Grows made written) Anything (Fulfills initial task) disk := by
  have hAlone := (hTask initial (Grows.refl _ _ _)).run (Grows.refl _ _)
  rw [taskScript_run] at hAlone
  exact (hTask disk hGrows).mono id id fun hEnds => ⟨hEnds.1.trans hAlone.1.symm, hEnds.2⟩

/-- A script may always fail. -/
theorem assured_fail (error : TaskError) :
    (pure (.error error) : Script Disk Verdict).Assured (Grows made written) Anything
      (Ends initial task (.error error)) disk :=
  Script.assured_pure fun _ _ => ⟨rfl, fun hOk => by cases hOk⟩

/-- Whether others keep off the target of a task and the way there, and leave its source as it
is. -/
structure Undisturbed (made written : Location → Prop) (initial : Disk) (task : Task) : Prop where
  plain : task.target.Plain
  start : initial.look (initial.startOf task.target) = some .dir
  source : ∀ disk, Grows made written initial disk →
    (transpilePath disk task.source none).1 = (transpilePath initial task.source none).1
  makes : ∀ output, (transpilePath initial task.source none).1 = .ok output →
    ∀ location, task.Makes initial.here location → made location
  unmade : ¬ made (task.spot initial.here)
  unwritten : ∀ location, location <+: task.spot initial.here → ¬ written location

namespace Undisturbed

variable (hTask : Undisturbed made written initial task)
  (hOutput : (transpilePath initial task.source none).1 = .ok output)
  (hGrows : Grows made written initial disk)

include hTask

theorem spells : Spells initial task.target
    (initial.startOf task.target ++ task.target.parts.dropLast) (task.spot initial.here) :=
  ⟨hTask.plain, rfl, (hTask.plain.locate_eq initial).symm⟩

theorem parentPlain : task.target.parent.Plain := fun name hMem =>
  hTask.plain name (List.dropLast_subset _ hMem)

/-- The directory of a target is above its place. -/
theorem above_prefix :
    initial.startOf task.target ++ task.target.parts.dropLast <+: task.spot initial.here := by
  rw [Task.spot, hTask.plain.locate_eq]
  exact (List.prefix_append_right_inj _).mpr (List.dropLast_prefix _)

/-- A task makes the directories above its target. -/
theorem makes_of_prefix
    (hAbove : location <+: initial.startOf task.target ++ task.target.parts.dropLast)
    (hBelow : location ≠ initial.startOf task.target) : task.Makes initial.here location := by
  refine ⟨hAbove.trans hTask.above_prefix, ?_⟩
  rintro rfl
  rw [Task.spot, hTask.plain.locate_eq] at hAbove hBelow
  have hLength := hAbove.length_le
  rw [List.length_append, List.length_append, List.length_dropLast] at hLength
  have hParts : task.target.parts.length ≠ 0 := by simpa using hBelow
  omega

/-- A source is read the same, whatever else is done. -/
theorem read (hGrows : Grows made written initial disk) :
    (ask fun disk => (transpilePath disk task.source none).1).Assured (Grows made written)
      Anything (fun result after => result = (transpilePath initial task.source none).1 ∧
        Grows made written initial after) disk :=
  assured_ask fun now hNow => ⟨trivial, fun _ hLater =>
    ⟨hTask.source now (hGrows.trans hNow), (hGrows.trans hNow).trans hLater⟩⟩

/-- A task whose source cannot be read fails so. -/
theorem ends_of_unread {error : TaskError}
    (hError : (transpilePath initial task.source none).1 = .error error)
    (hGrows : Grows made written initial disk) :
    (taskScript task).Assured (Grows made written) Anything
      (Ends initial task (.error error)) disk := by
  refine (hTask.read hGrows).bind (Grows.refl _ _) fun result middle hResult => ?_
  rw [hError] at hResult
  obtain ⟨rfl, _⟩ := hResult
  exact assured_fail error

include hOutput hGrows

/-- What becomes of the directories above the target settles what becomes of the task. -/
theorem ends_of_dirs {verdict : Verdict} {post : Except FileError Unit → Disk → Prop}
    (hDirs : ∀ disk, Grows made written initial disk →
      (dirsScript task.target.anchor task.target.parent.parts.reverse).Assured
        (Grows made written) Anything post disk)
    (hFinish : ∀ result middle, post result middle →
      (finishScript task.target output result).Assured (Grows made written) Anything
        (Ends initial task verdict) middle) :
    (taskScript task).Assured (Grows made written) Anything (Ends initial task verdict) disk := by
  refine (hTask.read hGrows).bind (Grows.refl _ _) fun result middle hResult => ?_
  rw [hOutput] at hResult
  obtain ⟨rfl, hMiddle⟩ := hResult
  exact (hDirs middle hMiddle).bind (Grows.refl _ _) hFinish

/-- A task whose directory is refused fails so. -/
theorem ends_of_refused {errno : Errno} (hErrno : errno ≠ .noEntry)
    (hParts : task.target.parent.parts ≠ [])
    (hRefused : ∀ now, Grows made written initial now →
      now.makeDir task.target.parent = .error errno ∧ now.isDir task.target.parent = false) :
    (taskScript task).Assured (Grows made written) Anything
      (Ends initial task (.error (.file (.ofPath errno task.target.parent)))) disk := by
  refine hTask.ends_of_dirs hOutput hGrows
    (fun disk hDisk => dirsScript_refused hErrno hParts hRefused hDisk)
    fun result middle hResult => ?_
  rw [hResult]
  exact assured_fail _

omit hGrows in
/-- The directories above a target are made if no file is on the way. -/
theorem dirs_of_clear
    (hFree : ¬ initial.Barred (initial.startOf task.target ++ task.target.parts.dropLast))
    (hNoFile : ∀ bytes, initial.look (initial.startOf task.target ++ task.target.parts.dropLast) ≠
      some (.file bytes)) (hGrows : Grows made written initial disk) :
    (dirsScript task.target.anchor task.target.parent.parts.reverse).Assured
      (Grows made written) Anything (fun result after => result = .ok () ∧
        Reached made written initial
          (initial.startOf task.target ++ task.target.parts.dropLast) after) disk := by
  have hReverse : task.target.parent.parts.reverse.reverse = task.target.parts.dropLast :=
    List.reverse_reverse _
  rw [← hReverse] at hFree hNoFile ⊢
  refine dirsScript_assured (fun _ => rfl) hTask.start
    (fun name hMem => hTask.parentPlain name (List.mem_reverse.mp hMem)) ?_ ?_ hFree hNoFile hGrows
  · intro above hAbove hBelow
    rw [hReverse] at hAbove
    exact hTask.makes output hOutput above (hTask.makes_of_prefix hAbove hBelow)
  · intro above hAbove
    rw [hReverse] at hAbove
    exact hTask.unwritten above (hAbove.trans hTask.above_prefix)

/-- A task whose target is a directory fails so. -/
theorem ends_of_taken
    (hFree : ¬ initial.Barred (initial.startOf task.target ++ task.target.parts.dropLast))
    (hNoFile : ∀ bytes, initial.look (initial.startOf task.target ++ task.target.parts.dropLast) ≠
      some (.file bytes)) (hTaken : initial.look (task.spot initial.here) = some .dir) :
    (taskScript task).Assured (Grows made written) Anything
      (Ends initial task (.error (.file (.ofPath .isDir task.target)))) disk := by
  refine hTask.ends_of_dirs hOutput hGrows
    (fun disk hDisk => hTask.dirs_of_clear hOutput hFree hNoFile hDisk)
    fun result middle hResult => ?_
  obtain ⟨rfl, hReached⟩ := hResult
  refine (writeScript_taken hTask.spells hTaken hReached).bind (Grows.refl _ _)
    fun wrote after hWrote => ?_
  rw [hWrote]
  exact assured_fail _

/-- A task whose place is writable succeeds. -/
theorem ends_of_writable
    (hFree : ¬ initial.Barred (initial.startOf task.target ++ task.target.parts.dropLast))
    (hNoFile : ∀ bytes, initial.look (initial.startOf task.target ++ task.target.parts.dropLast) ≠
      some (.file bytes)) (hNoDir : initial.look (task.spot initial.here) ≠ some .dir) :
    (taskScript task).Assured (Grows made written) Anything (Ends initial task (.ok ())) disk := by
  refine hTask.ends_of_dirs hOutput hGrows
    (fun disk hDisk => hTask.dirs_of_clear hOutput hFree hNoFile hDisk)
    fun result middle hResult => ?_
  obtain ⟨rfl, hReached⟩ := hResult
  have hUnwritten := hTask.unwritten _ List.prefix_rfl
  have hWritable : Writable initial
      (initial.startOf task.target ++ task.target.parts.dropLast) (task.spot initial.here) middle :=
    ⟨hReached.grows.here, hReached.look,
      hReached.grows.look_eq hTask.unmade hUnwritten ▸ hNoDir⟩
  refine (writeScript_assured hTask.spells hTask.unmade hUnwritten hWritable).bind
    (Grows.refl _ _) fun wrote after hWrote => ?_
  obtain ⟨rfl, hFile⟩ := hWrote
  exact Script.assured_pure fun later hLater => ⟨rfl, fun _ =>
    ⟨output, hOutput, (hLater.look_eq hTask.unmade hUnwritten).trans hFile⟩⟩

omit hOutput hGrows in
/-- An undisturbed task has one possible verdict. -/
theorem exists_ends : ∃ verdict, ∀ disk, Grows made written initial disk →
    (taskScript task).Assured (Grows made written) Anything (Ends initial task verdict) disk := by
  -- Where the target has no directory above it, the task starts in a directory.
  have hParts : initial.look (initial.startOf task.target ++ task.target.parts.dropLast) ≠
      some .dir → task.target.parent.parts ≠ [] := by
    intro hNoDir hNil
    rw [show task.target.parts.dropLast = [] from hNil, List.append_nil] at hNoDir
    exact hNoDir hTask.start
  cases hOutput : (transpilePath initial task.source none).1 with
  | error error => exact ⟨_, fun disk hGrows => hTask.ends_of_unread hOutput hGrows⟩
  | ok output =>
    by_cases hBarred :
        initial.Barred (initial.startOf task.target ++ task.target.parts.dropLast)
    · have hNotDir := hParts (by simp [hBarred.look_eq_none])
      exact ⟨_, fun disk hGrows => hTask.ends_of_refused hOutput hGrows Errno.noConfusion hNotDir
        fun now hNow => refused_of_barred hTask.parentPlain hTask.start hBarred
          (fun above hAbove => hTask.unwritten above (hAbove.trans hTask.above_prefix)) hNow⟩
    by_cases hFile : ∃ bytes, initial.look
        (initial.startOf task.target ++ task.target.parts.dropLast) = some (.file bytes)
    · obtain ⟨bytes, hFile⟩ := hFile
      have hNotDir := hParts (by simp [hFile])
      exact ⟨_, fun disk hGrows => hTask.ends_of_refused hOutput hGrows Errno.noConfusion hNotDir
        fun now hNow => refused_of_file hTask.parentPlain hTask.start hFile
          (hTask.unwritten _ hTask.above_prefix) hNow⟩
    have hNoFile := not_exists.mp hFile
    by_cases hTaken : initial.look (task.spot initial.here) = some .dir
    · exact ⟨_, fun disk hGrows => hTask.ends_of_taken hOutput hGrows hBarred hNoFile hTaken⟩
    · exact ⟨_, fun disk hGrows => hTask.ends_of_writable hOutput hGrows hBarred hNoFile hTaken⟩

omit hOutput in
/-- An undisturbed task ends as it ends alone. -/
theorem assured :
    (taskScript task).Assured (Grows made written) Anything (Fulfills initial task) disk := by
  obtain ⟨verdict, hEnds⟩ := hTask.exists_ends
  exact fulfills_of_ends verdict hEnds hGrows

omit hGrows in
/-- A task that has an output fails only if something is in the way. -/
theorem inTheWay_of_fails (hFails : (runTask initial task).1 ≠ .ok ()) :
    initial.Barred (task.spot initial.here) ∨
      initial.look (task.spot initial.here) = some .dir := by
  by_contra hClear
  obtain ⟨hFree, hNoDir⟩ := not_or.mp hClear
  have hSpot := hTask.plain.locate_eq initial
  rcases List.eq_nil_or_concat' task.target.parts with hNil | ⟨names, name, hParts⟩
  · rw [hNil, List.append_nil] at hSpot
    rw [Task.spot, hSpot] at hNoDir
    exact hNoDir hTask.start
  · rw [hParts, ← List.append_assoc] at hSpot
    have hAbove : initial.startOf task.target ++ names =
        initial.startOf task.target ++ task.target.parts.dropLast := by
      rw [hParts, List.dropLast_concat]
    rw [Task.spot, hSpot, Disk.barred_concat_iff, hAbove] at hFree
    obtain ⟨hFree, hNoFile⟩ := not_or.mp hFree
    have hAlone := (hTask.ends_of_writable hOutput (Grows.refl _ _ initial) hFree
      (not_exists.mp hNoFile) hNoDir).run (Grows.refl _ _)
    rw [taskScript_run] at hAlone
    exact hFails hAlone.1

end Undisturbed

end Task

end TryGo.Build
