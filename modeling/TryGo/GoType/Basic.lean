import TryGo.Text.Join
import TryGo.Token.Basic

/-! Type expressions and their text. Trees keep a type as the text given here. -/
namespace TryGo

/-- The forms of a type. The size of an array is whatever single token stands in the
brackets. A `tuple` is a parenthesised list of results, which is no type but stands where
a result type does. -/
inductive GoType where
  | named (name : String)
  | qualified (package name : String)
  | pointer (elem : GoType)
  | variadic (elem : GoType)
  | slice (elem : GoType)
  | array (size : Token) (elem : GoType)
  | map (key value : GoType)
  | chan (elem : GoType)
  | receiveChan (elem : GoType)
  | interface
  | struct
  | func (params : List GoType)
  | funcTo (params : List GoType) (result : GoType)
  | tuple (types : List GoType)
deriving Inhabited

namespace GoType

mutual

/-- A type as it is written, with a fixed layout. -/
def text : GoType → String
  | .named name => name
  | .qualified package name => package ++ "." ++ name
  | .pointer elem => "*" ++ elem.text
  | .variadic elem => "..." ++ elem.text
  | .slice elem => "[]" ++ elem.text
  | .array size elem => "[" ++ size.literal ++ "]" ++ elem.text
  | .map key value => "map[" ++ key.text ++ "]" ++ value.text
  | .chan elem => "chan " ++ elem.text
  | .receiveChan elem => "<-chan " ++ elem.text
  | .interface => "interface\x7b\x7d"
  | .struct => "struct\x7b\x7d"
  | .func params => "func(" ++ Text.commaSeparated (texts params) ++ ")"
  | .funcTo params result =>
      "func(" ++ Text.commaSeparated (texts params) ++ ") " ++ result.text
  | .tuple types => "(" ++ Text.commaSeparated (texts types) ++ ")"

def texts : List GoType → List String
  | [] => []
  | type :: types => type.text :: texts types

end

end GoType

end TryGo
