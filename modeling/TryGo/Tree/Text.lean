import TryGo.Number.Shortest
import TryGo.Text.Join
import TryGo.Tree.Basic

/-! The debugging form of a tree: compact and close to the source, with every operation in
parentheses, so that the shape of an expression can be read off. A hole shows as `None`.

The form is a total function, but an integer with too many decimal digits has no rendering.
Whether a tree holds one is a separate question, answered by `hasLongInteger`, and
`render` puts the two together. -/
namespace TryGo

/-- A string literal between its delimiters. -/
def stringText (value : String) (raw : Bool) : String :=
  if raw then "\x60" ++ value ++ "\x60" else "\"" ++ value ++ "\""

def charText (value : String) : String := "'" ++ value ++ "'"

def boolText (value : Bool) : String := if value then "true" else "false"

mutual

/-- An expression in its debugging form. -/
def Expr.text : Expr → String
  | .missing => "None"
  | .ident _ name => name
  | .int _ value => toString value
  | .float _ value => value.sixDecimals
  | .str _ value raw => stringText value raw
  | .char _ value => charText value
  | .bool _ value => boolText value
  | .nil _ => "nil"
  | .unary _ op operand => "(" ++ op ++ operand.text ++ ")"
  | .binary _ left op right => "(" ++ left.text ++ " " ++ op ++ " " ++ right.text ++ ")"
  | .call _ callee args => callee.text ++ "(" ++ Text.commaSeparated (Expr.texts args) ++ ")"
  | .select _ left field => "(" ++ left.text ++ "." ++ field.text ++ ")"
  | .index _ left position => "(" ++ left.text ++ "[" ++ position.text ++ "])"
  | .foreign _ form _ => form.getD ""

def Expr.texts : List Expr → List String
  | [] => []
  | e :: es => e.text :: Expr.texts es

end

/-- The debugging form of an optional child, which is empty when the child is missing. -/
def Expr.textOrEmpty (e : Expr) : String := if e.isMissing then "" else e.text

def parameterList (params : List Expr) (types : List (Option String)) : String :=
  Text.commaSeparated ((params.zip types).map fun (param, type) =>
    if isTyped type then param.text ++ " " ++ type.getD "" else param.text)

/-- A type with a space in front of it, or nothing. -/
def typeSuffix (type : Option String) : String :=
  if isTyped type then " " ++ type.getD "" else ""

/-- The name, parameters and result of a function without its keyword and body. -/
def signatureText (name : Expr) (params : List Expr) (types : List (Option String))
    (result : Option String) : String :=
  name.text ++ "(" ++ parameterList params types ++ ")" ++ typeSuffix result

/-- A comment with its marks. -/
def commentText (text : String) (multiline : Bool) : String :=
  if multiline then "/* " ++ text ++ " */" else "//" ++ text

/-- The part of a catch clause before its body. -/
def catchHeader (name : Expr) (type : Option String) : String :=
  if name.isMissing then "catch" else "catch (" ++ name.text ++ typeSuffix type ++ ")"

mutual

/-- A statement in its debugging form. -/
def Stmt.text : Stmt → String
  | .missing => "None"
  | .package _ name => "package " ++ name
  | .imports _ [path] => "import " ++ path
  | .imports _ paths => "import (" ++ Text.commaSeparated paths ++ ")"
  | .decl _ kind name type value =>
      kind.keyword ++ " " ++ name.text ++ typeSuffix type
        ++ (if value.isMissing then "" else " = " ++ value.text)
  | .assign _ targets op values =>
      Text.commaSeparated (Expr.texts targets) ++ " " ++ op ++ " "
        ++ Text.commaSeparated (Expr.texts values)
  | .define _ names values =>
      Text.commaSeparated (Expr.texts names) ++ " := "
        ++ Text.commaSeparated (Expr.texts values)
  | .ret _ [] => "return"
  | .ret _ values => "return " ++ Text.commaSeparated (Expr.texts values)
  | .expr _ value => value.textOrEmpty
  | .incr _ target op => target.text ++ op
  | .branch token => token.literal
  | .comment _ text multiline => commentText text multiline
  | .block _ statements => "\x7b\n" ++ Stmt.textLines statements ++ "\x7d"
  | .ifElse _ condition consequence alternative =>
      "if " ++ condition.text ++ " " ++ consequence.text
        ++ (if alternative.isMissing then "" else " else " ++ alternative.text)
  | .loop _ init condition update body =>
      "for " ++ (if init.isMissing then "" else init.text) ++ "; " ++ condition.textOrEmpty ++ "; "
        ++ (if update.isMissing then "" else update.text) ++ " " ++ body.text
  | .func _ name params types result body =>
      "func " ++ signatureText name params types result ++ " " ++ body.text
  | .catchClause _ name type body => catchHeader name type ++ " " ++ body.text
  | .tryCatch _ body catches cleanup =>
      "try " ++ body.text ++ Stmt.textWords catches
        ++ (if cleanup.isMissing then "" else " finally " ++ cleanup.text)
  | .throw _ value => "throw " ++ value.text
  | .bare value => value.text
  | .program _ statements => Stmt.textJoined statements

/-- Statements one after the other, each ended by a newline. -/
def Stmt.textLines : List Stmt → String
  | [] => ""
  | s :: rest => s.text ++ "\n" ++ Stmt.textLines rest

/-- Statements one after the other, a space in front of each. -/
def Stmt.textWords : List Stmt → String
  | [] => ""
  | s :: rest => " " ++ s.text ++ Stmt.textWords rest

/-- Statements one after the other with nothing between them. -/
def Stmt.textJoined : List Stmt → String
  | [] => ""
  | s :: rest => s.text ++ Stmt.textJoined rest

end

mutual

/-- Whether an expression holds an integer that has no decimal rendering. -/
def Expr.hasLongInteger : Expr → Bool
  | .int _ value => Number.isUnrenderable value
  | .unary _ _ operand => operand.hasLongInteger
  | .binary _ left _ right => left.hasLongInteger || right.hasLongInteger
  | .call _ callee args => callee.hasLongInteger || Expr.anyLongInteger args
  | .select _ left field => left.hasLongInteger || field.hasLongInteger
  | .index _ left position => left.hasLongInteger || position.hasLongInteger
  | .foreign _ form _ => form.isNone
  | _ => false

def Expr.anyLongInteger : List Expr → Bool
  | [] => false
  | e :: es => e.hasLongInteger || Expr.anyLongInteger es

end

mutual

def Stmt.hasLongInteger : Stmt → Bool
  | .decl _ _ name _ value => name.hasLongInteger || value.hasLongInteger
  | .assign _ targets _ values => Expr.anyLongInteger targets || Expr.anyLongInteger values
  | .define _ names values => Expr.anyLongInteger names || Expr.anyLongInteger values
  | .ret _ values => Expr.anyLongInteger values
  | .expr _ value => value.hasLongInteger
  | .incr _ target _ => target.hasLongInteger
  | .block _ statements => Stmt.anyLongInteger statements
  | .ifElse _ condition consequence alternative =>
      condition.hasLongInteger || consequence.hasLongInteger || alternative.hasLongInteger
  | .loop _ init condition update body =>
      init.hasLongInteger || condition.hasLongInteger || update.hasLongInteger
        || body.hasLongInteger
  | .func _ name params types _ body =>
      name.hasLongInteger || Expr.anyLongInteger (params.take types.length) || body.hasLongInteger
  | .catchClause _ name _ body => name.hasLongInteger || body.hasLongInteger
  | .tryCatch _ body catches cleanup =>
      body.hasLongInteger || Stmt.anyLongInteger catches || cleanup.hasLongInteger
  | .throw _ value => value.hasLongInteger
  | .bare value => value.hasLongInteger
  | .program _ statements => Stmt.anyLongInteger statements
  | .missing | .package _ _ | .imports _ _ | .branch _ | .comment _ _ _ => false

def Stmt.anyLongInteger : List Stmt → Bool
  | [] => false
  | s :: rest => s.hasLongInteger || Stmt.anyLongInteger rest

end

/-- Why a tree cannot be rendered: an integer in it is too long, or a node in the place of a
name holds no value. -/
inductive RenderError where
  | tooManyDigits
  | noName (kind : NodeKind)
deriving DecidableEq

def RenderError.message : RenderError → String
  | .tooManyDigits =>
      "Exceeds the limit (" ++ toString Number.maxDecimalDigits
        ++ " digits) for integer string conversion; use sys.set_int_max_str_digits() to "
        ++ "increase the limit"
  | .noName kind => "'" ++ kind.name ++ "' object has no attribute 'value'"

/-- The debugging form of an expression, unless an integer in it is too long. -/
def Expr.render (e : Expr) : Except RenderError String :=
  if e.hasLongInteger then .error .tooManyDigits else .ok e.text

/-- The debugging form of a statement, unless an integer in it is too long. -/
def Stmt.render (s : Stmt) : Except RenderError String :=
  if s.hasLongInteger then .error .tooManyDigits else .ok s.text

/-- The debugging form of a program: that of its statements with nothing between them. -/
def Program.render (program : Program) : Except RenderError String := program.toStmt.render

namespace Value

/-- A value as text. A floating-point number is in its shortest form, and a truth value is
spelled with a capital. -/
def render : Value → Except RenderError String
  | .name text => .ok text
  | .int value =>
      if Number.isUnrenderable value then .error .tooManyDigits else .ok (toString value)
  | .float value => .ok value.shortestText
  | .bool value => .ok (if value then "True" else "False")
  | .nothing => .ok "None"
  | .node none => .error .tooManyDigits
  | .node (some form) => .ok form

/-- Whether a value is void: an empty name, a zero, the false truth value, or nothing. -/
def isVoid : Value → Bool
  | .name text => text == ""
  | .int value => value == 0
  | .float value => value.abs == Number.Binary64.zero
  | .bool value => !value
  | .nothing => true
  | .node _ => false

/-- The name that a value is, if it is one. -/
def name? : Value → Option String
  | .name text => some text
  | _ => none

end Value

/-- The value of an expression. Operations and calls hold none. -/
def Expr.value? : Expr → Option Value
  | .ident _ name => some (.name name)
  | .str _ value _ => some (.name value)
  | .char _ value => some (.name value)
  | .int _ value => some (.int value)
  | .float _ value => some (.float value)
  | .bool _ value => some (.bool value)
  | .foreign _ _ value => value
  | _ => none

/-- The value of an expression in the place of a name, which has to hold one. -/
def Expr.heldValue (e : Expr) : Except RenderError Value :=
  match e.value? with
  | some value => .ok value
  | none => .error (.noName e.kind)

/-- An expression as the value of the node around it. -/
def Expr.asValue (e : Expr) : Value :=
  if e.isMissing then .nothing else .node e.render.toOption

/-- The value of a statement. A declaration and a throw hold the expression that they are
made with. -/
def Stmt.value? : Stmt → Option Value
  | .decl _ _ _ _ value => some value.asValue
  | .throw _ value => some value.asValue
  | .bare value => value.value?
  | _ => none

/-- A node in the place of an expression. -/
def Stmt.toExpr : Stmt → Expr
  | .missing => .missing
  | .bare value => value
  | s => .foreign s.kind s.render.toOption s.value?

end TryGo
