import TryGo.Diagnostic
import TryGo.Text.Join

/-! The events that a run records beside its result. Each event has a level, belongs to a
channel and has one wording. -/
namespace TryGo

inductive Level where
  | debug | info | warning
deriving DecidableEq

def Level.name : Level → String
  | .debug => "DEBUG"
  | .info => "INFO"
  | .warning => "WARNING"

/-- The part of the program that recorded an event. -/
inductive Channel where
  | parser | lowering | transpiler | command
deriving DecidableEq

def Channel.name : Channel → String
  | .parser => "godsl.transpiler.parser"
  | .lowering => "godsl.transpiler.codegen"
  | .transpiler => "godsl.transpiler.compiler"
  | .command => "godsl.cli.godsl"

/-- What can be recorded. Paths are texts here. -/
inductive Event where
  | report (diagnostic : Diagnostic)
  | injectedImports (paths : List String)
  | augmented (function : String) (declared : String) (emitted : String)
  | droppedCatches (count line : Nat)
  | parseFailed (filename : Option String) (count : Nat)
  | foundSources (count : Nat) (root : String)
  | wroteTarget (target : String) (size : Nat)
  | taskFailed (source message : String)
  | taskBroke (source fault : String)
  | keptBuildDir (dir : String)
  | removedBuildDir (dir : String)
deriving DecidableEq

namespace Event

def level : Event → Level
  | .droppedCatches _ _ | .taskBroke _ _ | .keptBuildDir _ => .warning
  | .removedBuildDir _ => .info
  | _ => .debug

def channel : Event → Channel
  | .report _ => .parser
  | .injectedImports _ | .augmented _ _ _ | .droppedCatches _ _ => .lowering
  | .parseFailed _ _ => .transpiler
  | _ => .command

/-- A file name as messages show it. An empty one counts as unknown. -/
def shownFilename : Option String → String
  | none => "<input>"
  | some name => if name == "" then "<input>" else name

def message : Event → String
  | .report diagnostic =>
      "parse error at " ++ diagnostic.pos.text ++ ": " ++ diagnostic.message
  | .injectedImports paths => "injecting imports: " ++ Text.commaSeparated paths
  | .augmented function declared emitted =>
      "function " ++ function ++ ": result " ++ declared ++ " -> " ++ emitted
  | .droppedCatches count line =>
      toString count ++ " catch clause(s) after a catch-all at line " ++ toString line
        ++ " can never run and were dropped"
  | .parseFailed filename count =>
      shownFilename filename ++ ": " ++ toString count ++ " parser error(s)"
  | .foundSources count root =>
      "found " ++ toString count ++ " source file(s) under " ++ root
  | .wroteTarget target size => "wrote " ++ target ++ " (" ++ toString size ++ " chars)"
  | .taskFailed source message => source ++ ": " ++ message
  | .taskBroke source fault => source ++ ": internal error: " ++ fault
  | .keptBuildDir dir => "not removing " ++ dir ++ ": it contains the source tree"
  | .removedBuildDir dir => "removed build directory " ++ dir

end Event

end TryGo
