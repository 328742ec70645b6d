import TryGo.Build.Options
import TryGo.Build.Run
import TryGo.Text.Terminal
import TryGo.Token.Listing
import TryGo.Tree.Outline

/-! The commands. A command takes the files, the environment and its arguments, and answers
with an exit code, what it prints, and the files after it. -/
namespace TryGo.Build

def version : String := "1.0.0"

/-- How a command ends. Wrong arguments are told apart from everything else, because what is
printed for them is up to the caller. -/
inductive Ending where
  | usage
  | help
  | done (exitCode : Nat) (out err : String)
deriving DecidableEq

/-- A failure that a command reports before it ends. -/
inductive Failure where
  | source (message : String)
  | request (message : String)
  | internal (message : String)
deriving DecidableEq

namespace Failure

def exitCode : Failure → Nat
  | .source _ => 1
  | .request _ => 2
  | .internal _ => 3

/-- What is printed for a failure. An internal one has a trace in verbose mode, which is
empty here. -/
def report (verbose : Bool) : Failure → String
  | .source message => String.ofList (Text.trimRight message.toList) ++ "\n"
  | .request message => "Error: " ++ message ++ "\n"
  | .internal message =>
      "Internal error: " ++ message ++ "\n" ++ (if verbose then "NoneType: None\n" else "")

/-- The failure that an error amounts to. A missing file is a wrong request. -/
def ofTaskError : TaskError → Failure
  | .source (.errors error) => .source error.message
  | .file ⟨.noEntry, shown⟩ => .request (FileError.message ⟨.noEntry, shown⟩)
  | error => .internal error.message

end Failure

/-- The line that an event leaves. Without verbosity only warnings leave one. -/
def eventLine (verbose : Bool) (event : Event) : String :=
  if verbose then
    event.level.name ++ ": " ++ event.channel.name ++ ": " ++ event.message ++ "\n"
  else if event.level == .warning then event.level.name ++ ": " ++ event.message ++ "\n"
  else ""

def eventLines (verbose : Bool) (events : List Event) : String :=
  Text.concat (events.map (eventLine verbose))

/-- A command that ends in a failure, after what it has said and recorded. -/
def failed (verbose : Bool) (out : String) (events : List Event) (failure : Failure) : Ending :=
  .done failure.exitCode (Text.printed out)
    (Text.logged (eventLines verbose events) ++ Text.printed (failure.report verbose))

def succeeded (verbose : Bool) (out : String) (events : List Event) : Ending :=
  .done 0 (Text.printed out) (Text.logged (eventLines verbose events))

/-- A command that breaks off and says nothing more. -/
def broken (verbose : Bool) (out : String) (events : List Event) : Ending :=
  .done 1 (Text.printed out) (Text.logged (eventLines verbose events))

/-- What is asked of the build command. -/
structure BuildRequest where
  root : Path
  buildDir : Option Path
  jobs : Option Int

/-- The line that tells of a finished task. -/
def taskLine (task : Task) : String :=
  "✓ " ++ task.source.text ++ " -> " ++ task.target.text ++ "\n"

/-- What a build that was tried says. The lines of the finished tasks are in order as they
are printed. -/
def buildHeader (config : Config) (tasks : List Task) (progress : Progress) : String :=
  let lines := (progress.completed.map taskLine).mergeSort fun a b =>
    decide (Text.printed a ≤ Text.printed b)
  "Found " ++ toString tasks.length ++ " " ++ config.sourceSuffix ++ " file(s)\n"
    ++ Text.concat lines

/-- Ends a build that was tried. If a source failed, the build directory is removed. -/
def finishBuild (config : Config) (verbose : Bool) (root : Path) (tasks : List Task)
    (found : Event) (progress : Progress) : Ending × Disk :=
  let out := buildHeader config tasks progress
  let events := found :: progress.events
  let buildDir := config.resolvedBuildDir progress.disk.here
  match progress.outcome with
  | .ok _ =>
      let last :=
        "Generated " ++ toString tasks.length ++ " file(s) in " ++ buildDir.text ++ "\n"
      (succeeded verbose (out ++ last) events, progress.disk)
  | .error error =>
      match removeBuildDir progress.disk buildDir root with
      | .error _ => (broken verbose out events, progress.disk)
      | .ok removal =>
          (failed verbose out (events ++ removal.events) (.source error.message), removal.disk)

/-- Builds everything below a root with given settings. -/
def buildBelow (disk : Disk) (config : Config) (verbose : Bool) (root : Path) : Ending × Disk :=
  match collect disk config root with
  | .error error => (failed verbose "" [] (.internal error.message), disk)
  | .ok tasks =>
      let found := foundEvent disk root tasks
      if tasks.isEmpty then
        let out := "No " ++ config.sourceSuffix ++ " files found in " ++ root.text ++ "\n"
        (succeeded verbose out [found], disk)
      else
        match transpileFiles disk tasks config.maxWorkers with
        | .error error => (failed verbose "" [found] (.internal error.message), disk)
        | .ok progress => finishBuild config verbose root tasks found progress

/-- The settings that the environment and the command line ask for. -/
def requestedConfig (env : Environment) (request : BuildRequest) : Except ConfigError Config := do
  let config ← Config.ofEnvironment env
  config.withOverrides
    { Overrides.empty with buildDir := request.buildDir, maxWorkers := request.jobs }

def buildCommand (disk : Disk) (env : Environment) (verbose : Bool) (request : BuildRequest) :
    Ending × Disk :=
  match requestedConfig env request with
  | .error error => (failed verbose "" [] (.request error.message), disk)
  | .ok config => buildBelow disk config verbose request.root

/-- What is to be shown of a source. -/
inductive View where
  | goSource (output : Option Path)
  | tokens
  | outline

/-- Shows the tokens of a source, its outline or its Go source, or writes the last to a
file. -/
def showCommand (disk : Disk) (verbose : Bool) (input : Path) (view : View) : Ending × Disk :=
  match view with
  | .tokens =>
      match readSource disk input with
      | .error error => (failed verbose "" [] (.ofTaskError error), disk)
      | .ok source =>
          let lines := (tokenize source).map fun token => token.shown ++ "\n"
          (succeeded verbose (Text.concat lines) [], disk)
  | .outline =>
      match readSource disk input with
      | .error error => (failed verbose "" [] (.ofTaskError error), disk)
      | .ok source =>
          let reading := parse source
          match reading.program with
          | .error crash =>
              (failed verbose "" reading.events (.internal crash.message), disk)
          | .ok program =>
              if !reading.reports.isEmpty then
                let error : TranspileError := ⟨reading.errors, some input.text⟩
                (failed verbose "" reading.events (.source error.message), disk)
              else
                match program.outline with
                | .error error => (failed verbose "" [] (.internal error.message), disk)
                | .ok text => (succeeded verbose (text ++ "\n") [], disk)
  | .goSource output =>
      let (result, events) := transpilePath disk input (some input.text)
      match result with
      | .error error => (failed verbose "" events (.ofTaskError error), disk)
      | .ok text =>
          match output with
          | none => (succeeded verbose text events, disk)
          | some path =>
              match writeBelow path (Text.encodeUtf8 text) disk with
              | .error error disk =>
                  (failed verbose "" events (.ofTaskError (.file error)), disk)
              | .ok () disk =>
                  (succeeded verbose
                    ("Transpiled " ++ input.text ++ " -> " ++ path.text ++ "\n") events, disk)

/-- The options before the name of a command. -/
def mainOptions : List OptionSpec :=
  [⟨"--verbose", some 'v', false⟩, ⟨"--version", none, false⟩, ⟨"--help", none, false⟩]

def buildOptions : List OptionSpec :=
  [⟨"--build-dir", some 'o', true⟩, ⟨"--jobs", some 'j', true⟩, ⟨"--help", none, false⟩]

def showOptions : List OptionSpec :=
  [⟨"--output", some 'o', true⟩, ⟨"--tokens", none, false⟩, ⟨"--ast", none, false⟩,
   ⟨"--help", none, false⟩]

def versionOptions : List OptionSpec := [⟨"--help", none, false⟩]

/-- Whether an argument names nothing, or something of the right kind. -/
def isFreeOr (disk : Disk) (wanted : FileTree → Bool) (text : String) : Bool :=
  match disk.entryOfText text with
  | none => true
  | some tree => wanted tree

/-- The number of jobs that an option asks for, which has to be at least one. -/
def jobsOf : Option String → Except UsageError (Option Int)
  | none => .ok none
  | some text =>
      match Text.readInt? text with
      | some jobs => if jobs < 1 then .error {} else .ok (some jobs)
      | none => .error {}

/-- Reads the arguments of the build command. The root has to be a directory, and the build
directory must not be a file. -/
def buildRequest (disk : Disk) (arguments : Arguments) : Except UsageError BuildRequest := do
  let root ← match arguments.others with
    | [] => pure "."
    | [root] => pure root
    | _ => throw {}
  let buildDir := arguments.value? "--build-dir"
  let jobs ← jobsOf (arguments.value? "--jobs")
  let isRoot := ((disk.entryOfText root).map FileTree.isDir).getD false
  let isFree := (buildDir.map (isFreeOr disk FileTree.isDir)).getD true
  if isRoot && isFree then return ⟨.ofString root, buildDir.map Path.ofString, jobs⟩
  else throw {}

/-- Reads the arguments of the show command. The input has to be a file, and the output must
not be a directory. -/
def showRequest (disk : Disk) (arguments : Arguments) : Except UsageError (Path × View) := do
  match arguments.others with
  | [input] =>
      let output := arguments.value? "--output"
      let isInput := ((disk.entryOfText input).map fun tree => !tree.isDir).getD false
      let isFree := (output.map (isFreeOr disk fun tree => !tree.isDir)).getD true
      if !(isInput && isFree) then throw {}
      else if arguments.has "--tokens" then return (.ofString input, .tokens)
      else if arguments.has "--ast" then return (.ofString input, .outline)
      else return (.ofString input, .goSource (output.map Path.ofString))
  | _ => throw {}

def runNamed (disk : Disk) (env : Environment) (verbose : Bool) (name : String)
    (arguments : List String) : Except UsageError (Ending × Disk) := do
  match name with
  | "generate" =>
      let arguments ← readArguments buildOptions true arguments
      if arguments.has "--help" then return (.help, disk)
      else return buildCommand disk env verbose (← buildRequest disk arguments)
  | "transpile" =>
      let arguments ← readArguments showOptions true arguments
      if arguments.has "--help" then return (.help, disk)
      else
        let (input, view) ← showRequest disk arguments
        return showCommand disk verbose input view
  | "version" =>
      let arguments ← readArguments versionOptions true arguments
      if arguments.has "--help" then return (.help, disk)
      else if arguments.others.isEmpty then
        return (.done 0 ("Version: " ++ version ++ "\n") "", disk)
      else throw {}
  | _ => throw {}

def runMain (disk : Disk) (env : Environment) (arguments : List String) :
    Except UsageError (Ending × Disk) := do
  let options ← readArguments mainOptions false arguments
  match options.used.find? fun use => use.1 == "--version" || use.1 == "--help" with
  | some (long, _) =>
      if long == "--help" then return (.help, disk)
      else return (.done 0 ("godsl, version " ++ version ++ "\n") "", disk)
  | none =>
      match options.others with
      | [] => throw {}
      | name :: rest => runNamed disk env (options.has "--verbose") name rest

/-- Runs the program with its arguments. Arguments that do not fit change nothing. -/
def run (disk : Disk) (env : Environment) (arguments : List String) : Ending × Disk :=
  match runMain disk env arguments with
  | .ok result => result
  | .error _ => (.usage, disk)

end TryGo.Build
