import TryGo.Text.Join
import TryGo.Text.Space

/-! The failure of a build: which sources failed and why. -/
namespace TryGo.Build

/-- The failed sources with their messages. -/
structure BuildError where
  failures : List (String × String)
deriving DecidableEq

namespace BuildError

/-- The lines that tell of one failure: the path, and the message indented below it. White
space at the end of the message is dropped. -/
def failureLines (failure : String × String) : List String :=
  (failure.1 ++ ":")
    :: (Text.lines (Text.trimRight failure.2.toList)).map fun line => "  " ++ String.ofList line

def message (error : BuildError) : String :=
  let count := error.failures.length
  let header := toString count ++ " file" ++ (if count == 1 then "" else "s")
    ++ " failed to transpile"
  Text.joinWith "\n" (header :: error.failures.flatMap failureLines)

end BuildError

end TryGo.Build
