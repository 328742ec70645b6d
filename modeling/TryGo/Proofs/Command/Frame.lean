import TryGo.Build.Command
import TryGo.Proofs.Collect.Targets
import TryGo.Proofs.Pool.Guarantee
import TryGo.Proofs.Pool.Run

/-! What the build command does to the files. It keeps to its build directory, whatever the order
in which its tasks run. -/
namespace TryGo.Build

open Disk (Grows)

/-! ### Locations that paths stand for -/

/-- What is left of a path was there before, and none of its parts is a step upwards. -/
theorem mem_resolveParts {name : String} {above parts : List String}
    (hMem : name ∈ Path.resolveParts above parts) :
    name ∈ above ∨ (name ∈ parts ∧ name ≠ "..") := by
  induction parts generalizing above with
  | nil => exact .inl (by simpa [Path.resolveParts] using hMem)
  | cons part rest ih =>
    rw [Path.resolveParts] at hMem
    split at hMem
    · rcases ih hMem with hAbove | ⟨hRest, hName⟩
      · exact .inl (List.mem_of_mem_tail hAbove)
      · exact .inr ⟨List.mem_cons_of_mem _ hRest, hName⟩
    · next hPart =>
      rcases ih hMem with hAbove | ⟨hRest, hName⟩
      · rcases List.mem_cons.mp hAbove with rfl | hOld
        · exact .inr ⟨List.mem_cons_self, by simpa using hPart⟩
        · exact .inl hOld
      · exact .inr ⟨List.mem_cons_of_mem _ hRest, hName⟩

/-- A location where something is has names only. -/
theorem FileTree.Named.isName_of_look {tree : FileTree} {location : Location} (hTree : tree.Named)
    (hThere : tree.look location ≠ none) : ∀ name ∈ location, IsName name := by
  induction hTree generalizing location with
  | file bytes =>
    cases location with
    | nil => simp
    | cons => simp at hThere
  | @dir entries _ hNames _ ih =>
    cases location with
    | nil => simp
    | cons first rest =>
      rw [look_dir_cons] at hThere
      cases hEntry : entries.lookup first with
      | none => simp [hEntry] at hThere
      | some below =>
        have hMem := mem_of_lookup hEntry
        simp only [hEntry, Option.bind_some] at hThere
        exact List.forall_mem_cons.mpr ⟨hNames _ hMem, ih _ hMem hThere⟩

section Paths

variable {disk : Disk} {location : Location} {path : Path}

/-- A path without empty parts stands for a location that has names only. -/
theorem Path.Tidy.isName_locate (hTidy : path.Tidy) (hTree : disk.tree.Named)
    (hHere : disk.look disk.here = some .dir) : ∀ name ∈ path.locate disk.here, IsName name := by
  intro name hMem
  have hNames := hTree.isName_of_look (hHere ▸ Option.some_ne_none _)
  rcases mem_resolveParts hMem with hAbove | ⟨hPart, hUp⟩
  · split at hAbove
    · exact hNames name (List.mem_reverse.mp hAbove)
    · cases hAbove
  · exact ⟨(hTidy name hPart).1, (hTidy name hPart).2, hUp⟩

/-- The path of a location is plain. -/
theorem plain_ofLocation (hNames : ∀ name ∈ location, IsName name) :
    (Path.ofLocation location).Plain := hNames

/-- A location is found by its own path. -/
theorem locate_ofLocation (hNames : ∀ name ∈ location, IsName name) (here : Location) :
    (Path.ofLocation location).locate here = location :=
  (plain_ofLocation hNames).locate_eq ⟨.dir [], here⟩

/-- A file is read by the path of its location. -/
theorem read_ofLocation {bytes : List UInt8} (hNames : ∀ name ∈ location, IsName name)
    (hFile : disk.look location = some (.file bytes)) :
    disk.read (.ofLocation location) = .ok bytes := by
  have hFollow : disk.follow [] location = .ok location :=
    Disk.follow_of_look hNames (by simp [hFile])
  have hStart : disk.startOf (.ofLocation location) = [] := rfl
  rw [Disk.read_eq, hStart, Path.ofLocation, hFollow]
  simp only [hFile]

end Paths

/-! ### Settings of the build command -/

/-- What is known of the settings that a build command has. -/
structure Requested (config : Config) : Prop where
  sources : config.sourceSuffix = ".godsl"
  targets : config.targetSuffix = ".go"
  name : config.buildDirName = "build"
  buildDir : ∀ path, config.buildDir = some path → path.Tidy

/-- What is asked for with texts: a root, and perhaps a build directory and a number of jobs. -/
def requestOf (root : String) (buildDir : Option String) (jobs : Option Int) : BuildRequest :=
  ⟨.ofString root, buildDir.map Path.ofString, jobs⟩

/-- A path that was given as a text is tidy. -/
theorem tidy_of_map {text : Option String} {path : Path}
    (hPath : text.map Path.ofString = some path) : path.Tidy := by
  obtain ⟨text, _, rfl⟩ := Option.map_eq_some_iff.mp hPath
  exact Path.tidy_ofString text

/-- What the environment asks for is a tidy request. -/
theorem requested_of_environment {env : Environment} {config : Config}
    (hConfig : Config.ofEnvironment env = .ok config) : Requested config := by
  have hDefault : Requested
      { Config.default with buildDir := (Config.given env.buildDir).map Path.ofString } :=
    ⟨rfl, rfl, rfl, fun _ hPath => tidy_of_map hPath⟩
  unfold Config.ofEnvironment at hConfig
  split at hConfig
  · exact Except.ok.inj hConfig ▸ hDefault
  · split at hConfig
    · cases hConfig
    · exact Except.ok.inj hConfig ▸ ⟨rfl, rfl, rfl, hDefault.buildDir⟩

/-- A command that is accepted is a tidy request with one worker at least. -/
theorem requested_of_ok {env : Environment} {root : String} {buildDir : Option String}
    {jobs : Option Int} {config : Config}
    (hConfig : requestedConfig env (requestOf root buildDir jobs) = .ok config) :
    Requested config ∧ 1 ≤ config.maxWorkers := by
  unfold requestedConfig at hConfig
  cases hEnv : Config.ofEnvironment env with
  | error error => simp [hEnv, bind, Except.bind] at hConfig
  | ok base =>
    have hBase := requested_of_environment hEnv
    have hCheck : Config.check
        { base with
          buildDir := (buildDir.map Path.ofString).orElse fun _ => base.buildDir
          maxWorkers := jobs.getD base.maxWorkers } = .ok config := by
      rw [hEnv] at hConfig
      exact hConfig
    unfold Config.check at hCheck
    split at hCheck
    · cases hCheck
    · next hWorkers =>
      obtain rfl := Except.ok.inj hCheck
      refine ⟨⟨hBase.sources, hBase.targets, hBase.name, fun path hPath => ?_⟩,
        by simpa using hWorkers⟩
      cases hGiven : buildDir.map Path.ofString with
      | none => exact hBase.buildDir path (by simpa [hGiven] using hPath)
      | some given =>
        obtain rfl : given = path := by simpa [hGiven] using hPath
        exact tidy_of_map hGiven

def Config.buildLocation (config : Config) (here : Location) : Location :=
  (config.resolvedBuildDir here).parts

section Settings

variable {config : Config} {disk : Disk}

/-- The build directory of a request is at its location. -/
theorem Requested.resolvedBuildDir_eq (hConfig : Requested config) :
    config.resolvedBuildDir disk.here = .ofLocation (config.buildLocation disk.here) := by
  unfold Config.buildLocation Config.resolvedBuildDir
  cases config.buildDir with
  | none => simp [hConfig.name, Path.join]; rfl
  | some path => rfl

theorem Requested.isName (hConfig : Requested config) (hTree : disk.tree.Named)
    (hHere : disk.look disk.here = some .dir) :
    ∀ name ∈ config.buildLocation disk.here, IsName name := by
  unfold Config.buildLocation Config.resolvedBuildDir
  cases hDir : config.buildDir with
  | none =>
    have hNames := hTree.isName_of_look (hHere ▸ Option.some_ne_none _)
    have hBuild : IsName "build" := by decide
    have hPath : Path.ofString "build" = ⟨.relative, ["build"]⟩ := rfl
    simp only [hConfig.name, hPath]
    exact List.forall_mem_append.mpr ⟨hNames, by simpa using hBuild⟩
  | some path => exact (hConfig.buildDir path hDir).isName_locate hTree hHere

end Settings

/-! ### Any order of tasks -/

/-- Whether the build command can end one way, with its tasks run in any order. -/
def CanGenerate (disk : Disk) (env : Environment) (verbose : Bool) (request : BuildRequest)
    (result : Ending × Disk) : Prop :=
  match requestedConfig env request with
  | .error _ => result = buildCommand disk env verbose request
  | .ok config =>
      match collect disk config request.root with
      | .error _ => result = buildCommand disk env verbose request
      | .ok tasks =>
          if tasks.isEmpty then result = buildCommand disk env verbose request
          else ∃ progress, CanBuild config.maxWorkers disk tasks progress ∧
            result = finishBuild config verbose request.root tasks
              (foundEvent disk request.root tasks) progress

/-- The command itself is one way to run. -/
theorem canGenerate_buildCommand (disk : Disk) (env : Environment) (verbose : Bool)
    (root : String) (buildDir : Option String) (jobs : Option Int) :
    CanGenerate disk env verbose (requestOf root buildDir jobs)
      (buildCommand disk env verbose (requestOf root buildDir jobs)) := by
  unfold CanGenerate
  split
  · rfl
  · next config hConfig =>
    have hWorkers := (requested_of_ok hConfig).2
    split
    · rfl
    · next tasks hTasks =>
      split
      · rfl
      · next hSome =>
        refine ⟨_, canBuild_of_perm (.refl tasks) hWorkers, ?_⟩
        have hBuild : transpileFiles disk tasks config.maxWorkers = .ok (runTasks disk tasks) :=
          if_neg (by omega)
        simp only [buildCommand, hConfig, buildBelow, hTasks, if_neg hSome, hBuild]

section Frame

variable {disk : Disk} {config : Config} {tasks : List Task} {task : Task} {workers : Int}
  {progress : Progress} {root : Path}

/-- Tasks make directories above their targets and write their targets, in any order. -/
theorem CanBuild.grows (hPlain : ∀ task ∈ tasks, task.target.Plain)
    (hBuild : CanBuild workers disk tasks progress) :
    Grows (fun location => ∃ task ∈ tasks, task.Makes disk.here location)
      (fun location => ∃ task ∈ tasks, task.Writes disk.here location) disk progress.disk := by
  obtain ⟨pool, results, hRun, hEnded, hDisk, -, -⟩ := hBuild
  have hStart : Pool.Sound (fun _ => SameHere)
      (fun task => Grows (task.Makes disk.here) (task.Writes disk.here))
      (fun _ _ after => after.here = disk.here)
      (Grows (fun location => ∃ task ∈ tasks, task.Makes disk.here location)
        fun location => ∃ task ∈ tasks, task.Writes disk.here location)
      disk (Pool.start disk tasks) := by
    refine ⟨?_, ?_, ?_, Grows.refl _ _ disk⟩
    · exact List.pairwise_of_forall fun _ _ =>
        ⟨fun hGrows => hGrows.here, fun hGrows => hGrows.here⟩
    · intro task hTask s s' hGrows
      have hMem : task ∈ tasks := by simpa [Pool.start] using hTask
      exact hGrows.mono (fun _ hMakes => ⟨task, hMem, hMakes⟩)
        fun _ hWrites => ⟨task, hMem, hWrites⟩
    · intro member hMem
      obtain ⟨task, hTask, rfl⟩ := List.mem_map.mp hMem
      exact growsOnly_taskScript (hPlain task hTask) disk rfl
  rw [hDisk]
  exact (hRun.sound hStart (fun _ _ => rfl) (fun _ {_ _ _} hFirst hSecond => hSecond.trans hFirst)
    Grows.trans).whole

/-! ### Where a build works -/

theorem isName_outputName (name : String) : IsName (outputName name) := by
  have hLast := getLast?_outputName name
  refine ⟨?_, ?_, ?_⟩ <;> intro hSame <;> simp [hSame] at hLast

/-- Whether a task reads a source and writes below the build directory. -/
structure Task.Mirrors (disk : Disk) (config : Config) (root : Location) (task : Task) : Prop where
  source : ∃ source ∈ sourcesBelow disk config root, task.source = .ofLocation source
  plain : task.target.Plain
  spot : ∃ below name,
    task.spot disk.here = config.buildLocation disk.here ++ (below ++ [outputName name])

/-- Each task mirrors its source below the build directory. -/
theorem mirrors_of_mem_collect (hConfig : Requested config) (hTree : disk.tree.Named)
    (hHere : disk.look disk.here = some .dir) (hTasks : collect disk config root = .ok tasks)
    (hTask : task ∈ tasks) : task.Mirrors disk config (root.locate disk.here) := by
  rw [collect_eq _ _ _ hConfig.targets] at hTasks
  obtain rfl := Except.ok.inj hTasks
  obtain ⟨source, hSource, rfl⟩ := List.mem_map.mp hTask
  obtain ⟨below, name, hLocation, _⟩ := exists_of_mem_sourcesBelow hTree hSource
  obtain ⟨bytes, hFile⟩ := look_of_mem_sourcesBelow hTree hSource
  have hNames := hTree.isName_of_look (hFile ▸ Option.some_ne_none _)
  have hTarget : outputOf (config.resolvedBuildDir disk.here) (root.locate disk.here) source =
      .ofLocation (config.buildLocation disk.here ++ (below ++ [outputName name])) := by
    rw [hLocation, outputOf_source, hConfig.resolvedBuildDir_eq]
    rfl
  have hPlain : ∀ part ∈ config.buildLocation disk.here ++ (below ++ [outputName name]),
      IsName part := by
    simp only [List.forall_mem_append, List.forall_mem_singleton]
    refine ⟨hConfig.isName hTree hHere, fun part hMem => ?_, isName_outputName name⟩
    exact hNames part (by simp [hLocation, hMem])
  refine ⟨⟨source, hSource, rfl⟩, ?_, below, name, ?_⟩
  · rw [hTarget]
    exact hPlain
  · rw [Task.spot, hTarget]
    exact locate_ofLocation hPlain _

namespace Task.Mirrors

variable {above location : Location}

/-- A task writes below the build directory. -/
theorem prefix_spot (hMirrors : task.Mirrors disk config above) :
    config.buildLocation disk.here <+: task.spot disk.here := by
  obtain ⟨below, name, hSpot⟩ := hMirrors.spot
  rw [hSpot]
  exact List.prefix_append _ _

/-- It writes no file in the place of the build directory. -/
theorem not_writes_buildDir (hMirrors : task.Mirrors disk config above) :
    ¬ task.Writes disk.here (config.buildLocation disk.here) := by
  obtain ⟨below, name, hSpot⟩ := hMirrors.spot
  intro hWrites
  rw [Task.Writes, hSpot] at hWrites
  simpa using congrArg List.length hWrites

/-- It writes no source, since no output has the suffix of one. -/
theorem not_writes_source (hMirrors : task.Mirrors disk config above)
    (hConfig : Requested config) (hTree : disk.tree.Named)
    (hSource : location ∈ sourcesBelow disk config above) : ¬ task.Writes disk.here location := by
  obtain ⟨below, other, hSpot⟩ := hMirrors.spot
  obtain ⟨inside, name, hLocation, hName⟩ := exists_of_mem_sourcesBelow hTree hSource
  intro hWrites
  rw [Task.Writes, hSpot, hLocation, ← List.append_assoc] at hWrites
  have hSame := List.singleton_inj.mp (List.append_inj' hWrites rfl).2
  exact outputName_ne_source (hConfig.sources ▸ hName) other hSame.symm

end Task.Mirrors

/-- Whether a disk has changed below the build directory only. Elsewhere there are new directories
at most, above the build directory. -/
def Outside (buildDir : Location) (before after : Disk) : Prop :=
  ∀ location, ¬ buildDir <+: location →
    after.look location = before.look location ∨
      (location <+: buildDir ∧ before.look location = none ∧ after.look location = some .dir)

/-- What the tasks of a build command have done together. -/
theorem CanBuild.outside (hConfig : Requested config) (hTree : disk.tree.Named)
    (hHere : disk.look disk.here = some .dir) (hTasks : collect disk config root = .ok tasks)
    (hBuild : CanBuild workers disk tasks progress) :
    progress.disk.here = disk.here ∧ Outside (config.buildLocation disk.here) disk progress.disk ∧
      (∀ source ∈ sourcesBelow disk config (root.locate disk.here),
        progress.disk.look source = disk.look source) ∧
      ∀ bytes, progress.disk.look (config.buildLocation disk.here) = some (.file bytes) ↔
        disk.look (config.buildLocation disk.here) = some (.file bytes) := by
  have hMirrors : ∀ task ∈ tasks, task.Mirrors disk config (root.locate disk.here) :=
    fun task hMem => mirrors_of_mem_collect hConfig hTree hHere hTasks hMem
  have hGrows := hBuild.grows fun task hMem => (hMirrors task hMem).plain
  refine ⟨hGrows.here, fun location hOutside => ?_, fun source hSource => ?_,
    fun bytes => hGrows.look_file_iff ?_⟩
  · rcases hGrows.look location with hSame | ⟨⟨task, hMem, hAbove, _⟩, hNone, hDir⟩ |
        ⟨⟨task, hMem, hWrites⟩, _⟩
    · exact .inl hSame
    · have hBefore := (List.prefix_or_prefix_of_prefix hAbove
        (hMirrors task hMem).prefix_spot).resolve_right hOutside
      exact .inr ⟨hBefore, hNone, hDir⟩
    · exact absurd (hWrites ▸ (hMirrors task hMem).prefix_spot) hOutside
  · obtain ⟨bytes, hFile⟩ := look_of_mem_sourcesBelow hTree hSource
    have hUnwritten : ¬ ∃ task ∈ tasks, task.Writes disk.here source :=
      fun ⟨task, hMem, hWrites⟩ =>
        (hMirrors task hMem).not_writes_source hConfig hTree hSource hWrites
    rw [hFile, hGrows.look_file_iff hUnwritten]
    exact hFile
  · exact fun ⟨task, hMem, hWrites⟩ => (hMirrors task hMem).not_writes_buildDir hWrites

/-! ### The end of the command -/

/-- Nothing is left at and below the build directory, and all else stays. -/
theorem look_remove {buildDir : Location} (hBelowTop : buildDir ≠ []) (location : Location) :
    (disk.remove buildDir).look location =
      if buildDir <+: location then none else disk.look location :=
  FileTree.look_erase hBelowTop location

/-- Whether a disk is kept when a build directory is to be removed: nothing is in its place, or the
root is in it. -/
def IsKept (disk : Disk) (buildDir root : Location) : Prop :=
  disk.look buildDir = none ∨ buildDir <+: root

/-- A directory is removed unless the root is in it. A file is refused. -/
theorem removeBuildDir_cases (disk : Disk) (buildDir root : Path) :
    (IsKept disk (buildDir.locate disk.here) (root.locate disk.here) ∧
      ∃ events, removeBuildDir disk buildDir root = .ok ⟨false, disk, events⟩) ∨
    (¬ buildDir.locate disk.here <+: root.locate disk.here ∧
      disk.look (buildDir.locate disk.here) = some .dir ∧ ∃ events,
        removeBuildDir disk buildDir root =
          .ok ⟨true, disk.remove (buildDir.locate disk.here), events⟩) ∨
    ((∃ bytes, disk.look (buildDir.locate disk.here) = some (.file bytes)) ∧
      ∃ error, removeBuildDir disk buildDir root = .error error) := by
  cases hTree : disk.tree.get? (buildDir.locate disk.here) with
  | none =>
    refine .inl ⟨.inl (by simp [Disk.look, FileTree.look, hTree]), [], ?_⟩
    simp only [removeBuildDir, hTree]
  | some tree =>
    by_cases hInside : buildDir.locate disk.here <+: root.locate disk.here
    · refine .inl ⟨.inr hInside,
        [.keptBuildDir (Path.ofLocation (buildDir.locate disk.here)).text], ?_⟩
      simp only [removeBuildDir, hTree, List.isPrefixOf_iff_prefix.mpr hInside, if_true]
    · have hOutside : (buildDir.locate disk.here).isPrefixOf (root.locate disk.here) = false := by
        simpa [← List.isPrefixOf_iff_prefix] using hInside
      cases tree with
      | dir entries =>
        refine .inr (.inl ⟨hInside, by simp [Disk.look, FileTree.look, hTree, FileTree.entry],
          [.removedBuildDir (Path.ofLocation (buildDir.locate disk.here)).text], ?_⟩)
        simp only [removeBuildDir, hTree, hOutside, FileTree.isDir, if_true, Bool.false_eq_true,
          if_false]
      | file bytes =>
        refine .inr (.inr ⟨⟨bytes, by simp [Disk.look, FileTree.look, hTree, FileTree.entry]⟩, ?_⟩)
        simp only [removeBuildDir, hTree, hOutside, FileTree.isDir, Bool.false_eq_true, if_false]
        exact ⟨_, rfl⟩

/-- How a build that was tried ends. -/
theorem finishBuild_cases (config : Config) (verbose : Bool) (root : Path) (tasks : List Task)
    (found : Event) (progress : Progress) {buildDir : Location}
    (hLocate : (config.resolvedBuildDir progress.disk.here).locate progress.disk.here = buildDir) :
    ∃ ending last, finishBuild config verbose root tasks found progress = (ending, last) ∧
      ((last = progress.disk ∧ ∀ out err, ending ≠ .done 1 out err) ∨
        (last = progress.disk ∧
          (IsKept progress.disk buildDir (root.locate progress.disk.here) ∨
            ∃ bytes, progress.disk.look buildDir = some (.file bytes))) ∨
        (last = progress.disk.remove buildDir ∧
          ¬ buildDir <+: root.locate progress.disk.here ∧
          progress.disk.look buildDir = some .dir)) := by
  subst hLocate
  cases hOutcome : progress.outcome with
  | ok completed =>
    refine ⟨_, _, by simp only [finishBuild, hOutcome]; rfl, .inl ⟨rfl, fun out err => ?_⟩⟩
    simp [succeeded]
  | error error =>
    rcases removeBuildDir_cases progress.disk (config.resolvedBuildDir progress.disk.here) root with
      ⟨hKept, events, hRemoval⟩ | ⟨hOutside, hDir, events, hRemoval⟩ | ⟨hFile, error, hRemoval⟩
    · exact ⟨_, _, by simp only [finishBuild, hOutcome, hRemoval]; rfl,
        .inr (.inl ⟨rfl, .inl hKept⟩)⟩
    · exact ⟨_, _, by simp only [finishBuild, hOutcome, hRemoval]; rfl,
        .inr (.inr ⟨rfl, hOutside, hDir⟩)⟩
    · exact ⟨_, _, by simp only [finishBuild, hOutcome, hRemoval]; rfl,
        .inr (.inl ⟨rfl, .inr hFile⟩)⟩

/-- Whether the build command has kept to its build directory. Elsewhere nothing has changed but for
new directories above the build directory. The sources are there with the same content. If the
command has failed to build, there is no build directory any more, unless the root is in it. This
needs that no file stands in the place of the build directory: such a file is never removed. -/
structure Contained (config : Config) (root : Path) (before : Disk) (ending : Ending)
    (after : Disk) : Prop where
  outside : Outside (config.buildLocation before.here) before after
  sources : ∀ tasks, collect before config root = .ok tasks → ∀ task ∈ tasks,
    ∃ bytes, before.read task.source = .ok bytes ∧ after.read task.source = .ok bytes
  removed : (∀ bytes, before.look (config.buildLocation before.here) ≠ some (.file bytes)) →
    ∀ out err, ending = .done 1 out err →
      config.buildLocation before.here <+: root.locate before.here ∨
        after.look (config.buildLocation before.here) = none
  blocked : ∀ bytes, before.look (config.buildLocation before.here) = some (.file bytes) →
    after.look (config.buildLocation before.here) = some (.file bytes)

/-- A source that stays is read as before. -/
theorem read_of_look {after : Disk} (hConfig : Requested config) (hTree : disk.tree.Named)
    (hHere : disk.look disk.here = some .dir)
    (hLook : ∀ source ∈ sourcesBelow disk config (root.locate disk.here),
      after.look source = disk.look source)
    (tasks : List Task) (hTasks : collect disk config root = .ok tasks) (task : Task)
    (hTask : task ∈ tasks) :
    ∃ bytes, disk.read task.source = .ok bytes ∧ after.read task.source = .ok bytes := by
  obtain ⟨source, hSource, hPath⟩ :=
    (mirrors_of_mem_collect hConfig hTree hHere hTasks hTask).source
  obtain ⟨bytes, hFile⟩ := look_of_mem_sourcesBelow hTree hSource
  have hNames := hTree.isName_of_look (hFile ▸ Option.some_ne_none _)
  rw [hPath]
  exact ⟨bytes, read_ofLocation hNames hFile,
    read_ofLocation hNames ((hLook source hSource).trans hFile)⟩

/-- The end of a build that was tried leaves what is outside of the build directory alone. -/
theorem CanBuild.contained (hConfig : Requested config) (hTree : disk.tree.Named)
    (hHere : disk.look disk.here = some .dir) (hTasks : collect disk config root = .ok tasks)
    (hBuild : CanBuild workers disk tasks progress) {verbose : Bool} {found : Event}
    {ending : Ending} {after : Disk}
    (hFinish : finishBuild config verbose root tasks found progress = (ending, after)) :
    Contained config root disk ending after := by
  obtain ⟨hSame, hOutside, hSources, hFile⟩ := hBuild.outside hConfig hTree hHere hTasks
  have hLocate : (config.resolvedBuildDir progress.disk.here).locate progress.disk.here =
      config.buildLocation disk.here := by
    rw [hSame, hConfig.resolvedBuildDir_eq]
    exact locate_ofLocation (hConfig.isName hTree hHere) _
  obtain ⟨ending', last, hEnd, hCases⟩ :=
    finishBuild_cases config verbose root tasks found progress hLocate
  obtain ⟨rfl, rfl⟩ := Prod.mk.inj (hFinish.symm.trans hEnd)
  rw [hSame] at hCases
  rcases hCases with ⟨rfl, hNever⟩ | ⟨rfl, hKept⟩ | ⟨rfl, hRoot, hDir⟩
  · exact ⟨hOutside, read_of_look hConfig hTree hHere hSources,
      fun _ out err hFailed => absurd hFailed (hNever out err), fun bytes => (hFile bytes).mpr⟩
  · refine ⟨hOutside, read_of_look hConfig hTree hHere hSources, fun hFree out err _ => ?_,
      fun bytes => (hFile bytes).mpr⟩
    rcases hKept with (hNone | hInside) | ⟨bytes, hThere⟩
    · exact .inr hNone
    · exact .inl hInside
    · exact absurd ((hFile bytes).mp hThere) (hFree bytes)
  · have hBelowTop : config.buildLocation disk.here ≠ [] := by
      intro hTop
      simp [hTop] at hRoot
    refine ⟨fun location hOut => ?_,
      read_of_look hConfig hTree hHere fun source hSource => ?_, fun _ out err _ => .inr ?_,
      fun bytes hThere => ?_⟩
    · rw [look_remove hBelowTop, if_neg hOut]
      exact hOutside location hOut
    · rw [look_remove hBelowTop, if_neg, hSources source hSource]
      intro hInside
      have hHereToo := not_in_buildDir hTree hConfig.resolvedBuildDir_eq hRoot hSource hInside
      obtain ⟨bytes, hSourceFile⟩ := look_of_mem_sourcesBelow hTree hSource
      rw [hHereToo, hSources source hSource, hSourceFile] at hDir
      cases hDir
    · simp [look_remove hBelowTop]
    · rw [(hFile bytes).mpr hThere] at hDir
      cases hDir

/-- A command that does not come to a build changes nothing. -/
theorem Contained.unchanged {ending : Ending} (hConfig : Requested config)
    (hTree : disk.tree.Named) (hHere : disk.look disk.here = some .dir)
    (hEnding : ∀ out err, ending ≠ .done 1 out err) : Contained config root disk ending disk :=
  ⟨fun _ _ => .inl rfl, read_of_look hConfig hTree hHere fun _ _ => rfl,
    fun _ out err hFailed => absurd hFailed (hEnding out err), fun _ => id⟩

/-- The build command keeps to its build directory, whatever the files, the root, the build
directory that is asked for, and the order in which the tasks run. A build that fails leaves no
build directory, unless the root is in it or a file was in its place from the start. -/
theorem generate_contained (disk : Disk) (env : Environment) (verbose : Bool) (root : String)
    (buildDir : Option String) (jobs : Option Int) (hTree : disk.tree.Named)
    (hHere : disk.look disk.here = some .dir) :
    CanGenerate disk env verbose (requestOf root buildDir jobs)
        (buildCommand disk env verbose (requestOf root buildDir jobs)) ∧
      ∀ ending after,
        CanGenerate disk env verbose (requestOf root buildDir jobs) (ending, after) →
          (∀ error, requestedConfig env (requestOf root buildDir jobs) = .error error →
            after = disk) ∧
          ∀ config, requestedConfig env (requestOf root buildDir jobs) = .ok config →
            Contained config (.ofString root) disk ending after := by
  refine ⟨canGenerate_buildCommand disk env verbose root buildDir jobs,
    fun ending after hRun => ⟨fun error hError => ?_, fun config hOk => ?_⟩⟩
  · simp only [CanGenerate, hError, buildCommand] at hRun
    exact (Prod.mk.inj hRun).2
  · have hConfig := (requested_of_ok hOk).1
    have hRoot : (requestOf root buildDir jobs).root = .ofString root := rfl
    obtain ⟨tasks, hTasks⟩ : ∃ tasks, collect disk config (.ofString root) = .ok tasks :=
      ⟨_, collect_eq _ _ _ hConfig.targets⟩
    simp only [CanGenerate, hOk, hRoot, hTasks] at hRun
    split at hRun
    · next hNone =>
      simp only [buildCommand, hOk, buildBelow, hRoot, hTasks, if_pos hNone] at hRun
      obtain ⟨rfl, rfl⟩ := Prod.mk.inj hRun
      exact .unchanged hConfig hTree hHere fun out err => by simp [succeeded]
    · obtain ⟨progress, hBuild, hFinish⟩ := hRun
      exact hBuild.contained hConfig hTree hHere hTasks hFinish.symm

/-- A source that is no text, beside what an earlier build has left. -/
def failingDisk : Disk :=
  ⟨.dir [("w", .dir [("a.godsl", .file [255]), ("build", .dir [("old.go", .file [])])])], ["w"]⟩

/-- What is built when nothing is asked for: the sources below the working directory. -/
def plainRequest : BuildRequest := requestOf "." none none

theorem generate_contained_failingDisk :
    failingDisk.tree.Named ∧ failingDisk.look failingDisk.here = some .dir ∧
      failingDisk.look ["w", "build"] = some .dir ∧
      (∃ out err after, CanGenerate failingDisk ⟨none, none⟩ false plainRequest
        (.done 1 out err, after)) ∧
      ∀ out err after, CanGenerate failingDisk ⟨none, none⟩ false plainRequest
        (.done 1 out err, after) →
          Outside ["w", "build"] failingDisk after ∧ after.look ["w", "build"] = none := by
  have hNamed : failingDisk.tree.Named := by decide
  have hHere : failingDisk.look failingDisk.here = some .dir := rfl
  have hBuild : failingDisk.look ["w", "build"] = some .dir := rfl
  have hConfig : requestedConfig ⟨none, none⟩ plainRequest = .ok .default := rfl
  obtain ⟨hRuns, hEvery⟩ :=
    generate_contained failingDisk ⟨none, none⟩ false "." none none hNamed hHere
  refine ⟨hNamed, hHere, hBuild, ?_, fun out err after hRun => ?_⟩
  · obtain ⟨out, err, hFails⟩ : ∃ out err,
        (buildCommand failingDisk ⟨none, none⟩ false plainRequest).1 = .done 1 out err :=
      ⟨"Found 1 .godsl file(s)\n", "1 file failed to transpile\n/w/a.godsl:\n" ++
        "  'utf-8' codec can't decode byte 0xff in position 0: invalid start byte\n", by
        decide +kernel⟩
    refine ⟨out, err, (buildCommand failingDisk ⟨none, none⟩ false plainRequest).2, ?_⟩
    rw [← hFails]
    exact hRuns
  · have hContained := (hEvery (.done 1 out err) after hRun).2 .default hConfig
    refine ⟨hContained.outside, ?_⟩
    have hFree : ∀ bytes, failingDisk.look ["w", "build"] ≠ some (.file bytes) := by
      intro bytes
      simp [hBuild]
    have hRoot : ¬ ["w", "build"] <+: ["w"] := by decide
    exact (hContained.removed hFree out err rfl).resolve_left hRoot

/-- A source beside a file in the place of the build directory. -/
def fileDisk : Disk :=
  ⟨.dir [("w", .dir [("a.godsl", .file (Text.encodeUtf8 "package a\n")),
    ("build", .file (Text.encodeUtf8 "x"))])], ["w"]⟩

/-- The one source stands beside the file. -/
theorem sourcesBelow_fileDisk : sourcesBelow fileDisk .default ["w"] = [["w", "a.godsl"]] := by
  have hNames : ["a.godsl", "build"].mergeSort (fun a b => decide (a ≤ b)) =
      ["a.godsl", "build"] := List.mergeSort_of_pairwise (by decide)
  simp [sourcesBelow, fileDisk, FileTree.get?, filesBelow, filesBelowEach, fileNames,
    sortByName, FileTree.isDir, Config.default, hasSuffix, hNames, List.isSuffixOf]

/-- A file in the place of the build directory makes the command break off: it exits with a failure,
reports none, and the file is still there, though the root is not in it. -/
theorem generate_keeps_fileDisk :
    ¬ (Config.default.buildLocation ["w"] <+: (Path.ofString ".").locate ["w"]) ∧
      (buildCommand fileDisk ⟨none, none⟩ false plainRequest).1 =
        .done 1 "Found 1 .godsl file(s)\n" "" ∧
      (buildCommand fileDisk ⟨none, none⟩ false plainRequest).2.look
        (Config.default.buildLocation ["w"]) = some (.file (Text.encodeUtf8 "x")) := by
  have hTasks : collect fileDisk .default plainRequest.root =
      .ok [⟨.ofString "/w/a.godsl", .ofString "/w/build/a.go"⟩] := by
    rw [collect_eq _ _ _ rfl]
    change Except.ok (List.map _ (sourcesBelow fileDisk .default ["w"])) = _
    rw [sourcesBelow_fileDisk]
    rfl
  have hConfig : requestedConfig ⟨none, none⟩ plainRequest = .ok .default := rfl
  refine ⟨by decide, ?_⟩
  simp only [buildCommand, hConfig, buildBelow, hTasks]
  decide +kernel

end Frame

end TryGo.Build
