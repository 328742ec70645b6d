import TryGo.Build.Run
import TryGo.Proofs.Files.Growth
import TryGo.Proofs.Pool.Script

/-! The actions of a task. Others can act between any two of them: when a directory turned out to
be missing and before it is made, and when the target is open and still empty. -/
namespace TryGo.Build

/-- What a task comes to. -/
abbrev Verdict := Except TaskError Unit

/-- A change of a disk that can be refused, as one action. -/
def attempt {ε : Type} (change : Disk → Except ε Disk) : Script Disk (Except ε Unit) :=
  .action fun disk =>
    match change disk with
    | .ok after => (.ok (), after)
    | .error error => (.error error, disk)

def ask {α : Type} (answer : Disk → α) : Script Disk α := .action fun disk => (answer disk, disk)

section Assured

variable {α ε : Type} {rely guar : Disk → Disk → Prop} {disk : Disk}

/-- A change is assured by what it does on every disk that the others may leave. -/
theorem assured_attempt {change : Disk → Except ε Disk} {post : Except ε Unit → Disk → Prop}
    (hChange : ∀ now, rely disk now →
      (∃ after, change now = .ok after ∧ guar now after ∧
        ∀ later, rely after later → post (.ok ()) later) ∨
      (∃ error, change now = .error error ∧ guar now now ∧
        ∀ later, rely now later → post (.error error) later)) :
    (attempt change).Assured rely guar post disk := by
  refine Script.assured_action fun now hNow => ?_
  rcases hChange now hNow with ⟨after, hDo, hAfter⟩ | ⟨error, hDo, hRefused⟩
  · rw [hDo]
    exact hAfter
  · rw [hDo]
    exact hRefused

/-- A question is assured if its answer stays right, whatever the others do. -/
theorem assured_ask {answer : Disk → α} {post : α → Disk → Prop}
    (hAnswer : ∀ now, rely disk now →
      guar now now ∧ ∀ later, rely now later → post (answer now) later) :
    (ask answer).Assured rely guar post disk :=
  Script.assured_action hAnswer

end Assured

/-- What follows a refusal to make a directory: it may be there already. -/
def checkScript (path : Path) (errno : Errno) : Script Disk (Except FileError Unit) := do
  if ← ask fun disk => disk.isDir path then pure (.ok ())
  else pure (.error (.ofPath errno path))

/-- What follows an attempt to make a directory. -/
def settleDir (path : Path) : Except Errno Unit → Script Disk (Except FileError Unit)
  | .ok () => pure (.ok ())
  | .error .noEntry => pure (.error (.ofPath .noEntry path))
  | .error errno => checkScript path errno

def dirScript (path : Path) : Script Disk (Except FileError Unit) := do
  settleDir path (← attempt fun disk => disk.makeDir path)

/-- The actions of making a directory and those above it, given the names of its path in
reverse. -/
def dirsScript (anchor : Anchor) : List String → Script Disk (Except FileError Unit)
  | [] => dirScript ⟨anchor, []⟩
  | name :: above => do
      let path : Path := ⟨anchor, (name :: above).reverse⟩
      match ← attempt fun disk => disk.makeDir path with
      | .error .noEntry =>
          match ← dirsScript anchor above with
          | .ok () => dirScript path
          | .error error => pure (.error error)
      | answer => settleDir path answer

/-- The actions of writing a file. It is empty when it has been opened. -/
def writeScript (path : Path) (bytes : List UInt8) : Script Disk (Except FileError Unit) := do
  match ← attempt fun disk => disk.write path [] with
  | .ok () => attempt fun disk => disk.write path bytes
  | .error error => pure (.error error)

/-- What follows the making of the directories above a target. -/
def finishScript (target : Path) (output : String) : Except FileError Unit → Script Disk Verdict
  | .ok () => do return (← writeScript target (Text.encodeUtf8 output)).mapError .file
  | .error error => pure (.error (.file error))

def taskScript (task : Task) : Script Disk Verdict := do
  match ← ask fun disk => (transpilePath disk task.source none).1 with
  | .ok output =>
      finishScript task.target output
        (← dirsScript task.target.anchor task.target.parent.parts.reverse)
  | .error error => pure (.error error)

/-! ### A task without others -/

/-- What a step on a disk comes to, with the disk after it. -/
def answerOf {ε : Type} : EStateM.Result ε Disk Unit → Except ε Unit × Disk
  | .ok () disk => (.ok (), disk)
  | .error error disk => (.error error, disk)

/-- A change that nobody disturbs is the change itself. -/
theorem run_attempt {ε : Type} (change : Disk → Except ε Disk) (disk : Disk) :
    (attempt change).run disk =
      match change disk with
      | .ok after => (.ok (), after)
      | .error error => (.error error, disk) := rfl

theorem run_ask {α : Type} (answer : Disk → α) (disk : Disk) :
    (ask answer).run disk = (answer disk, disk) := rfl

/-- A directory that nobody else makes is made as it would be in one go. -/
theorem dirScript_run (path : Path) (disk : Disk) :
    (dirScript path).run disk = answerOf (ensureDir path disk) := by
  rw [dirScript, Script.run_bind, run_attempt, ensureDir]
  cases hMake : disk.makeDir path with
  | ok after => rfl
  | error errno =>
    cases hDir : disk.isDir path <;> cases errno <;>
      simp [settleDir, checkScript, run_ask, answerOf, hDir]

section Dirs

variable {anchor : Anchor} {name : String} {above : List String} {disk : Disk}

/-- A missing directory is made after the one above it. -/
theorem ensureDirsFrom_cons (anchor : Anchor) (name : String) (above : List String)
    (disk : Disk) :
    ensureDirsFrom anchor (name :: above) disk =
      (match disk.makeDir ⟨anchor, (name :: above).reverse⟩ with
        | .error .noEntry => do
            ensureDirsFrom anchor above
            ensureDir ⟨anchor, (name :: above).reverse⟩
        | _ => ensureDir ⟨anchor, (name :: above).reverse⟩ : DiskM Unit) disk := by
  rw [ensureDirsFrom]
  rfl

/-- If the one above is missing, it is made and then the directory itself. -/
theorem ensureDirsFrom_of_missing
    (hMake : disk.makeDir ⟨anchor, (name :: above).reverse⟩ = .error .noEntry) :
    ensureDirsFrom anchor (name :: above) disk =
      match ensureDirsFrom anchor above disk with
      | .ok () middle => ensureDir ⟨anchor, (name :: above).reverse⟩ middle
      | .error error middle => .error error middle := by
  rw [ensureDirsFrom_cons, hMake]
  simp only [bind, EStateM.bind]
  cases ensureDirsFrom anchor above disk <;> rfl

/-- If nothing above is missing, only the directory itself is made. -/
theorem ensureDirsFrom_of_ne
    (hMake : disk.makeDir ⟨anchor, (name :: above).reverse⟩ ≠ .error .noEntry) :
    ensureDirsFrom anchor (name :: above) disk =
      ensureDir ⟨anchor, (name :: above).reverse⟩ disk := by
  rw [ensureDirsFrom_cons]
  cases hDo : disk.makeDir ⟨anchor, (name :: above).reverse⟩ with
  | ok after => rfl
  | error errno =>
    cases errno with
    | noEntry => exact absurd hDo hMake
    | «exists» => rfl
    | notDir => rfl
    | isDir => rfl

end Dirs

/-- A file is written once the directories above it are there. -/
theorem writeBelow_run (path : Path) (bytes : List UInt8) (disk : Disk) :
    writeBelow path bytes disk =
      match ensureDirsFrom path.anchor path.parent.parts.reverse disk with
      | .ok () middle => writeFile path bytes middle
      | .error error middle => .error error middle := by
  have hAnchor : path.parent.anchor = path.anchor := rfl
  simp only [writeBelow, bind, EStateM.bind, ensureDirs, hAnchor]
  cases ensureDirsFrom path.anchor path.parent.parts.reverse disk <;> rfl

theorem dirsScript_run (anchor : Anchor) (names : List String) (disk : Disk) :
    (dirsScript anchor names).run disk = answerOf (ensureDirsFrom anchor names disk) := by
  induction names generalizing disk with
  | nil => exact dirScript_run _ disk
  | cons name above ih =>
    rw [dirsScript, Script.run_bind, run_attempt]
    by_cases hMake : disk.makeDir ⟨anchor, (name :: above).reverse⟩ = .error .noEntry
    · rw [ensureDirsFrom_of_missing hMake]
      simp only [hMake, Script.run_bind, ih]
      cases ensureDirsFrom anchor above disk with
      | ok _ middle => exact dirScript_run _ middle
      | error error middle => rfl
    · rw [ensureDirsFrom_of_ne hMake, ← dirScript_run, dirScript, Script.run_bind, run_attempt]
      split
      · next hMissing =>
        split at hMissing <;> simp_all
      · rfl

/-- A file that nobody else writes is written as it would be in one go. -/
theorem writeScript_run (path : Path) (bytes : List UInt8) (disk : Disk) :
    (writeScript path bytes).run disk = answerOf (writeFile path bytes disk) := by
  rw [writeScript, Script.run_bind, run_attempt, writeFile]
  cases hOpen : disk.write path [] with
  | error error => simp [Disk.write_error hOpen bytes, answerOf]
  | ok middle =>
    simp only [run_attempt, Disk.write_again hOpen bytes]
    cases hWrite : disk.write path bytes with
    | ok after => rfl
    | error error => simp [Disk.write_error hWrite [] ] at hOpen

/-- A task without others does what its actions do one after the other. -/
theorem taskScript_run (task : Task) (disk : Disk) :
    (taskScript task).run disk = ((runTask disk task).1, (runTask disk task).2.1) := by
  rw [taskScript, Script.run_bind, run_ask, runTask]
  cases hSource : transpilePath disk task.source none with
  | mk result events =>
    cases result with
    | error error => rfl
    | ok output =>
      simp only [writeBelow_run, Script.run_bind, dirsScript_run]
      cases ensureDirsFrom task.target.anchor task.target.parent.parts.reverse disk with
      | error error middle => rfl
      | ok _ middle =>
        simp only [answerOf, finishScript, Script.run_bind, writeScript_run]
        cases writeFile task.target (Text.encodeUtf8 output) middle <;> rfl

end TryGo.Build
