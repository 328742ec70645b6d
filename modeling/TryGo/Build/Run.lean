import TryGo.Build.Collect
import TryGo.Build.Error
import TryGo.Text.Utf8
import TryGo.Transpile

/-! Carrying out a build. Every task is tried, whatever becomes of the others, and the
failures are reported together in the order of their sources. -/
namespace TryGo.Build

/-- Why a file could not be transpiled. -/
inductive TaskError where
  | file (error : FileError)
  | encoding (fault : Text.Utf8Fault)
  | source (failure : SourceFailure)
deriving DecidableEq

namespace TaskError

def message : TaskError → String
  | .file error => error.message
  | .encoding fault => fault.message
  | .source (.errors error) => error.message
  | .source (.crash crash) => crash.message

/-- The class under which an error is shown. -/
def className : TaskError → String
  | .file error => error.errno.className
  | .encoding _ => "UnicodeDecodeError"
  | .source (.errors _) => "TranspileError"
  | .source (.crash crash) => crash.className

/-- What a build reports of an error. A crash is marked as one. -/
def report : TaskError → String
  | .source (.crash crash) => "internal error: " ++ crash.className ++ ": " ++ crash.message
  | error => error.message

def event (source : Path) : TaskError → Event
  | .source (.crash crash) =>
      .taskBroke source.text (crash.className ++ "(" ++ Text.quoted crash.message ++ ")")
  | error => .taskFailed source.text error.message

end TaskError

/-- The text of a source file. Its line ends all become newlines. -/
def readSource (disk : Disk) (path : Path) : Except TaskError String :=
  match disk.read path with
  | .error error => .error (.file error)
  | .ok bytes =>
      match Text.decodeUtf8 bytes with
      | .error fault => .error (.encoding fault)
      | .ok chars => .ok (String.ofList (Text.normalizeNewlines chars))

/-- The Go source of a source file, with the events. -/
def transpilePath (disk : Disk) (path : Path) (filename : Option String) :
    Except TaskError String × List Event :=
  match readSource disk path with
  | .error error => (.error error, [])
  | .ok source =>
      ((goSource source filename).mapError TaskError.source, (transpile source filename).events)

def runTask (disk : Disk) (task : Task) : Except TaskError Unit × Disk × List Event :=
  let (result, events) := transpilePath disk task.source none
  match result with
  | .error error => (.error error, disk, events)
  | .ok output =>
      match writeBelow task.target (Text.encodeUtf8 output) disk with
      | .error error disk => (.error (.file error), disk, events)
      | .ok () disk => (.ok (), disk, events ++ [.wroteTarget task.target.text output.length])

/-- A build on its way: the files, the tasks done, the failures, and the events. -/
structure Progress where
  disk : Disk
  completed : List Task
  failures : List (String × String)
  events : List Event

/-- A build with one more task tried. -/
def Progress.step (progress : Progress) (task : Task) : Progress :=
  let (result, disk, events) := runTask progress.disk task
  match result with
  | .ok () =>
      { disk := disk
        completed := progress.completed ++ [task]
        failures := progress.failures
        events := progress.events ++ events }
  | .error error =>
      { disk := disk
        completed := progress.completed
        failures := progress.failures ++ [(task.source.text, error.report)]
        events := progress.events ++ events ++ [error.event task.source] }

/-- Tries tasks one after the other. -/
def runTasks (disk : Disk) (tasks : List Task) : Progress :=
  tasks.foldl Progress.step ⟨disk, [], [], []⟩

/-- A pool of workers that no task can run in. -/
inductive PoolError where
  | noWorkers
deriving DecidableEq

def PoolError.message : PoolError → String
  | .noWorkers => "max_workers must be greater than 0"

/-- Tries tasks with a number of workers. The number has no influence on the outcome, but
there has to be a worker. -/
def transpileFiles (disk : Disk) (tasks : List Task) (workers : Int) : Except PoolError Progress :=
  if workers < 1 then .error .noWorkers else .ok (runTasks disk tasks)

/-- The order of pairs of texts: by the first, then by the second. -/
def pairLE (a b : String × String) : Bool :=
  if a.1 = b.1 then decide (a.2 ≤ b.2) else decide (a.1 ≤ b.1)

/-- What a build that was tried comes to: the completed tasks, or the failures if there are
any. Both are in order. -/
def Progress.outcome (progress : Progress) : Except BuildError (List Task) :=
  if progress.failures.isEmpty then
    .ok (progress.completed.mergeSort fun a b =>
      pairLE (a.source.text, a.target.text) (b.source.text, b.target.text))
  else .error ⟨progress.failures.mergeSort pairLE⟩

/-- What removing a build directory comes to. -/
structure Removal where
  removed : Bool
  disk : Disk
  events : List Event

/-- Removes a build directory. One that holds the root of the sources, or is it, is left
alone, and so is one that does not exist. -/
def removeBuildDir (disk : Disk) (buildDir root : Path) : Except FileError Removal :=
  let location := buildDir.locate disk.here
  let shown := (Path.ofLocation location).text
  match disk.tree.get? location with
  | none => .ok ⟨false, disk, []⟩
  | some tree =>
      if location.isPrefixOf (root.locate disk.here) then
        .ok ⟨false, disk, [.keptBuildDir shown]⟩
      else if tree.isDir then .ok ⟨true, disk.remove location, [.removedBuildDir shown]⟩
      else .error ⟨.notDir, "PosixPath(" ++ Text.quoted shown ++ ")"⟩

end TryGo.Build
