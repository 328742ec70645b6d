/-! Reading the options on a command line. An option has a long name of two dashes or a
short one of a dash and a character; some take a value. The value of a long option may
follow an equals sign, that of a short one may follow directly, and otherwise it is the next
argument. Short options without a value can share a dash. -/
namespace TryGo.Build

/-- An option that a command knows: its spellings, and whether it takes a value. -/
structure OptionSpec where
  long : String
  short : Option Char
  takesValue : Bool

/-- A line that the options of a command do not allow. -/
structure UsageError where
deriving DecidableEq

/-- The options that were used, by their long names and with their values, in order, and the
other arguments. -/
structure Arguments where
  used : List (String × String)
  others : List String

namespace Arguments

/-- The last value of an option. -/
def value? (arguments : Arguments) (long : String) : Option String :=
  (arguments.used.reverse.find? fun use => use.1 == long).map Prod.snd

def has (arguments : Arguments) (long : String) : Bool := (arguments.value? long).isSome

end Arguments

/-- What one argument says: options that are complete, and one that awaits its value. -/
structure OptionUse where
  complete : List (String × String)
  awaiting : Option String

def readShort (specs : List OptionSpec) : List Char → Except UsageError OptionUse
  | [] => .ok ⟨[], none⟩
  | c :: rest =>
      match specs.find? fun spec => spec.short == some c with
      | none => .error {}
      | some spec =>
          if spec.takesValue then
            if rest.isEmpty then .ok ⟨[], some spec.long⟩
            else .ok ⟨[(spec.long, String.ofList rest)], none⟩
          else do
            let more ← readShort specs rest
            return { more with complete := (spec.long, "") :: more.complete }

/-- A long option, with or without a value behind an equals sign. -/
def readLong (specs : List OptionSpec) (chars : List Char) : Except UsageError OptionUse :=
  let name := String.ofList (chars.takeWhile (· != '='))
  let tail := chars.dropWhile (· != '=')
  match specs.find? fun spec => spec.long == name with
  | none => .error {}
  | some spec =>
      match spec.takesValue, tail with
      | true, [] => .ok ⟨[], some spec.long⟩
      | true, _ :: value => .ok ⟨[(spec.long, String.ofList value)], none⟩
      | false, [] => .ok ⟨[(spec.long, "")], none⟩
      | false, _ :: _ => .error {}

/-- An argument that starts with a dash. -/
def readOption (specs : List OptionSpec) : List Char → Except UsageError OptionUse
  | '-' :: '-' :: name => readLong specs ('-' :: '-' :: name)
  | _ :: chars => readShort specs chars
  | [] => .error {}

/-- Whether an argument is an option: it starts with a dash and has more to it. -/
def isOption (argument : String) : Bool :=
  match argument.toList with
  | '-' :: _ :: _ => true
  | _ => false

/-- Reads the options on a line. Unless `mixed`, they end at the first other argument. Two
dashes end them always. -/
def readArguments (specs : List OptionSpec) (mixed : Bool) :
    List String → Except UsageError Arguments
  | [] => .ok ⟨[], []⟩
  | argument :: rest =>
      if argument == "--" then .ok ⟨[], rest⟩
      else if isOption argument then do
        let use ← readOption specs argument.toList
        match use.awaiting, rest with
        | none, rest =>
            let more ← readArguments specs mixed rest
            return { more with used := use.complete ++ more.used }
        | some _, [] => throw {}
        | some long, value :: rest =>
            let more ← readArguments specs mixed rest
            return { more with used := use.complete ++ (long, value) :: more.used }
      else if mixed then do
        let more ← readArguments specs mixed rest
        return { more with others := argument :: more.others }
      else .ok ⟨[], argument :: rest⟩

end TryGo.Build
