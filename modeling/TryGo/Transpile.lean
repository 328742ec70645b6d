import TryGo.Lower.Stmt
import TryGo.Parse.Stmt

/-! From source text to Go source. Lowering is tried only when parsing reported nothing.

A source can fail in two ways. The reports of the parser are the ordinary one. A crash is
the other: something that no report stands for. -/
namespace TryGo

/-- What went wrong beside the reports of the parser. The depth of the call stack has no limit
here: reading, printing and lowering go as deep as a source nests, so neither a crash nor a fault of
the lowering stands for a stack that is too deep. -/
inductive Crash where
  | render (error : RenderError)
  | lowering (fault : Lower.Fault)
  | outOfFuel
deriving DecidableEq

namespace Crash

def message : Crash → String
  | .render error => error.message
  | .lowering fault => fault.message
  | .outOfFuel => "out of fuel"

/-- The class under which a crash is shown. -/
def className : Crash → String
  | .render .tooManyDigits | .lowering (.render .tooManyDigits) => "ValueError"
  | .render (.noName _) | .lowering (.render (.noName _)) => "AttributeError"
  | .lowering (.noKeyword _) => "KeyError"
  | .lowering (.notBlock _) | .lowering (.notCatch _) => "AttributeError"
  | .outOfFuel => "RuntimeError"

/-- The crash that a halt of the parser amounts to. No program is abandoned as a whole. -/
def ofHalt : Parse.Halt → Crash
  | .unrenderable error => .render error
  | .abandoned | .outOfFuel => .outOfFuel

end Crash

/-- The program that was read, or the crash that prevented it. -/
def Parse.Reading.program (reading : Parse.Reading) : Except Crash Program :=
  reading.result.mapError Crash.ofHalt

/-- The reports of a reading as events. -/
def Parse.Reading.events (reading : Parse.Reading) : List Event :=
  reading.reports.map Event.report

/-- What transpiling a source gave. The output is absent when there were errors. -/
structure Transpiled where
  program : Program
  errors : List String
  output : Option String

/-- The outcome of transpiling a source, with the events in order. -/
structure Transpiling where
  result : Except Crash Transpiled
  events : List Event

/-- Transpiles a source. The file name only serves the events. -/
def transpile (source : String) (filename : Option String) : Transpiling :=
  let reading := parse source
  match reading.program with
  | .error crash => ⟨.error crash, reading.events⟩
  | .ok program =>
      if reading.reports.isEmpty then
        let lowering := program.lower
        match lowering.result with
        | .error fault => ⟨.error (.lowering fault), reading.events ++ lowering.events⟩
        | .ok lines =>
            ⟨.ok ⟨program, [], some (Go.sourceText lines)⟩, reading.events ++ lowering.events⟩
      else
        ⟨.ok ⟨program, reading.errors, none⟩,
          reading.events ++ [.parseFailed filename reading.reports.length]⟩

/-- The errors of one source, as a failure. An empty file name counts as none. -/
structure TranspileError where
  errors : List String
  filename : Option String
deriving DecidableEq

/-- A header with the errors below it, each line ended by a newline. -/
def TranspileError.message (error : TranspileError) : String :=
  let header :=
    match error.filename with
    | none => "Parser errors:"
    | some name => if name == "" then "Parser errors:" else name ++ ": Parser errors:"
  Text.concat ((header :: error.errors.map ("  " ++ ·)).map (· ++ "\n"))

/-- Why a source gave no Go source. -/
inductive SourceFailure where
  | errors (error : TranspileError)
  | crash (crash : Crash)
deriving DecidableEq

/-- The Go source of a source text, or why there is none. -/
def goSource (source : String) (filename : Option String) : Except SourceFailure String :=
  match (transpile source filename).result with
  | .error crash => .error (.crash crash)
  | .ok result =>
      match result.output with
      | some output => .ok output
      | none => .error (.errors ⟨result.errors, filename⟩)

end TryGo
