import TryGo.Text.Join
import TryGo.Text.Space
import TryGo.Tree.Basic

/-! Result types as texts: taking a declared result apart, adding an error to it, and the
zero value of a type. A declared result is absent, one type, or a parenthesised list. -/
namespace TryGo

def errorType : String := "error"

/-- Cuts a text at the commas that stand outside all brackets, given the bracket depth so
far and the characters of the current part, newest first. -/
def cutAtCommas (depth : Int) (part : List Char) : List Char → List (List Char)
  | [] => [part.reverse]
  | c :: rest =>
      let depth :=
        if ['(', '[', '{'].contains c then depth + 1
        else if [')', ']', '}'].contains c then depth - 1
        else depth
      if c == ',' && depth == 0 then part.reverse :: cutAtCommas depth [] rest
      else cutAtCommas depth (c :: part) rest

/-- The parts of a result list without the white space around them. A last part that is
white space only does not count. -/
def resultParts (inner : List Char) : List String :=
  let parts := (cutAtCommas 0 [] inner).map Text.trim
  let parts := if parts.getLast? = some [] then parts.dropLast else parts
  parts.map String.ofList

/-- The types of a declared result. -/
def splitResults : Option String → List String
  | none => []
  | some text =>
      match text.toList with
      | [] => []
      | '(' :: rest => resultParts rest.dropLast
      | _ => [text]

/-- A declared result with an error as its last type. A result that already ends in one
stays as it was written. -/
def augmentResult (result : Option String) : String :=
  let types := splitResults result
  if types.isEmpty then errorType
  else if types.getLast? = some errorType then result.getD ""
  else "(" ++ Text.commaSeparated (types ++ [errorType]) ++ ")"

def numericTypes : List String :=
  ["int", "int8", "int16", "int32", "int64", "uint", "uint8", "uint16", "uint32", "uint64",
   "uintptr", "byte", "rune", "float32", "float64", "complex64", "complex128"]

/-- The beginnings of types whose zero value is nil. -/
def nilPrefixes : List String :=
  ["*", "[]", "map[", "chan ", "<-chan ", "func(", "interface"]

/-- An expression for the zero value of a type. -/
def zeroValue (type : String) : String :=
  if numericTypes.contains type then "0"
  else if type == "string" then "\"\""
  else if type == "bool" then "false"
  else if type == errorType || type == "any"
      || nilPrefixes.any (fun start => start.toList.isPrefixOf type.toList) then "nil"
  else "*new(" ++ type ++ ")"

end TryGo
