import TryGo.Build.Path
import TryGo.Text.SignedInteger

/-! The settings of a build. They start from defaults, then come the two environment
variables, then the options of the command line. -/
namespace TryGo.Build

/-- The settings. Without a build directory the one named `buildDirName` in the working
directory is meant. Directories of that name are not searched for sources. -/
structure Config where
  buildDir : Option Path
  buildDirName : String
  sourceSuffix : String
  targetSuffix : String
  maxWorkers : Int
deriving DecidableEq

/-- A setting that is refused. -/
inductive ConfigError where
  | tooFewWorkers (count : Int)
  | badJobs (text : String)
deriving DecidableEq

def ConfigError.message : ConfigError → String
  | .tooFewWorkers count => "max_workers must be at least 1, got " ++ toString count
  | .badJobs text => "GODSL_JOBS must be an integer, got " ++ Text.quoted text

/-- The environment variables that matter. An empty one counts as unset. -/
structure Environment where
  buildDir : Option String
  jobs : Option String

structure Overrides where
  buildDir : Option Path
  buildDirName : Option String
  sourceSuffix : Option String
  targetSuffix : Option String
  maxWorkers : Option Int

def Overrides.empty : Overrides := ⟨none, none, none, none, none⟩

namespace Config

def default : Config := ⟨none, "build", ".godsl", ".go", 8⟩

/-- The settings, provided that there is at least one worker. -/
def check (config : Config) : Except ConfigError Config :=
  if config.maxWorkers < 1 then .error (.tooFewWorkers config.maxWorkers) else .ok config

/-- The settings with the given ones replaced. -/
def withOverrides (config : Config) (overrides : Overrides) : Except ConfigError Config :=
  check {
    buildDir := overrides.buildDir.orElse fun _ => config.buildDir
    buildDirName := overrides.buildDirName.getD config.buildDirName
    sourceSuffix := overrides.sourceSuffix.getD config.sourceSuffix
    targetSuffix := overrides.targetSuffix.getD config.targetSuffix
    maxWorkers := overrides.maxWorkers.getD config.maxWorkers }

/-- A variable that is set to something. -/
def given (setting : Option String) : Option String := setting.filter (· != "")

/-- The settings that an environment asks for. A number of jobs below one counts as one. -/
def ofEnvironment (env : Environment) : Except ConfigError Config := do
  let config := { default with buildDir := (given env.buildDir).map Path.ofString }
  match given env.jobs with
  | none => return config
  | some text =>
      match Text.readInt? text with
      | none => throw (.badJobs text)
      | some jobs => return { config with maxWorkers := max 1 jobs }

def resolvedBuildDir (config : Config) (here : Location) : Path :=
  match config.buildDir with
  | none => (Path.ofLocation here).join (Path.ofString config.buildDirName)
  | some path => path.resolve here

end Config

end TryGo.Build
