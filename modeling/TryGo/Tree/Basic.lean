import TryGo.Number.Binary64
import TryGo.Token.Basic
import TryGo.Tree.Kind

/-! The trees that sources are read into. A tree records what could be made of a source, so
any child may be missing: `missing` is the hole. Only the parser's error list says whether a
tree may be relied on. Every node keeps the token that introduced it.

A type is kept as its text. Parsing puts each kind of node where it belongs, but trees also
come from elsewhere. The place of a statement may then hold any node: a bare expression, a
catch clause or a whole program. The place of a name may hold any expression, and that of
an expression may hold something foreign. -/
namespace TryGo

/-- The value that a node holds, which is what counts in the place of a name. An identifier
holds its name, and a literal what it denotes. Of a value that is a node itself the debugging
form is kept, which is absent if the node has none. -/
inductive Value where
  | name (text : String)
  | int (value : Int)
  | float (value : Number.Binary64)
  | bool (value : Bool)
  | nothing
  | node (form : Option String)
deriving DecidableEq, Inhabited

/-- Expressions. Operators are kept as their text. Of a `foreign` node, which is no
expression, only its kind, its debugging form and its value are kept; the form is absent if
the node has none, and the value if nodes of its kind hold none. -/
inductive Expr where
  | missing
  | ident (token : Token) (name : String)
  | int (token : Token) (value : Int)
  | float (token : Token) (value : Number.Binary64)
  | str (token : Token) (value : String) (raw : Bool)
  | char (token : Token) (value : String)
  | bool (token : Token) (value : Bool)
  | nil (token : Token)
  | unary (token : Token) (op : String) (operand : Expr)
  | binary (token : Token) (left : Expr) (op : String) (right : Expr)
  | call (token : Token) (callee : Expr) (args : List Expr)
  | select (token : Token) (left : Expr) (field : Expr)
  | index (token : Token) (left : Expr) (position : Expr)
  | foreign (kind : NodeKind) (form : Option String) (value : Option Value)
deriving Inhabited

/-- Whether a declaration is of a variable or of a constant. -/
inductive DeclKind where
  | var
  | const
deriving DecidableEq, Inhabited

def DeclKind.keyword : DeclKind → String
  | .var => "var"
  | .const => "const"

/-- Statements, and whatever else may stand in a statement list. A block is a statement of
its own, and the bodies of functions, loops and clauses are such blocks. A function has its
parameter names and their types side by side; a parameter without a type shares the next
one's. -/
inductive Stmt where
  | missing
  | package (token : Token) (name : String)
  | imports (token : Token) (paths : List String)
  | decl (token : Token) (kind : DeclKind) (name : Expr) (type : Option String)
      (value : Expr)
  | assign (token : Token) (targets : List Expr) (op : String) (values : List Expr)
  | define (token : Token) (names : List Expr) (values : List Expr)
  | ret (token : Token) (values : List Expr)
  | expr (token : Token) (value : Expr)
  | incr (token : Token) (target : Expr) (op : String)
  | branch (token : Token)
  | comment (token : Token) (text : String) (multiline : Bool)
  | block (token : Token) (statements : List Stmt)
  | ifElse (token : Token) (condition : Expr) (consequence : Stmt) (alternative : Stmt)
  | loop (token : Token) (init : Stmt) (condition : Expr) (update : Stmt) (body : Stmt)
  | func (token : Token) (name : Expr) (params : List Expr)
      (paramTypes : List (Option String)) (result : Option String) (body : Stmt)
  | catchClause (token : Token) (name : Expr) (type : Option String) (body : Stmt)
  | tryCatch (token : Token) (body : Stmt) (catches : List Stmt) (cleanup : Stmt)
  | throw (token : Token) (value : Expr)
  | bare (value : Expr)
  | program (token : Token) (statements : List Stmt)
deriving Inhabited

/-- A whole source. -/
structure Program where
  token : Token
  statements : List Stmt
deriving Inhabited

def Program.toStmt (program : Program) : Stmt := .program program.token program.statements

namespace Expr

def kind : Expr → NodeKind
  | .missing => .absent
  | .ident _ _ => .identifier
  | .int _ _ => .integer
  | .float _ _ => .float
  | .str _ _ _ => .string
  | .char _ _ => .char
  | .bool _ _ => .boolean
  | .nil _ => .nil
  | .unary _ _ _ => .unary
  | .binary _ _ _ _ => .binary
  | .call _ _ _ => .call
  | .select _ _ _ => .select
  | .index _ _ _ => .index
  | .foreign kind _ _ => kind

/-- The token of a node. A hole and a foreign node have the blank one. -/
def token : Expr → Token
  | .missing | .foreign _ _ _ => Token.blank
  | .ident token _ | .int token _ | .float token _ | .str token _ _ | .char token _
  | .bool token _ | .nil token | .unary token _ _ | .binary token _ _ _ | .call token _ _
  | .select token _ _ | .index token _ _ => token

def isMissing : Expr → Bool
  | .missing => true
  | _ => false

def isIdent : Expr → Bool
  | .ident _ _ => true
  | _ => false

end Expr

namespace Stmt

def kind : Stmt → NodeKind
  | .missing => .absent
  | .package _ _ => .package
  | .imports _ _ => .imports
  | .decl _ .var _ _ _ => .varDecl
  | .decl _ .const _ _ _ => .constDecl
  | .assign _ _ _ _ => .assign
  | .define _ _ _ => .define
  | .ret _ _ => .ret
  | .expr _ _ => .expression
  | .incr _ _ _ => .increment
  | .branch _ => .branch
  | .comment _ _ _ => .comment
  | .block _ _ => .block
  | .ifElse _ _ _ _ => .conditional
  | .loop _ _ _ _ _ => .loop
  | .func _ _ _ _ _ _ => .function
  | .catchClause _ _ _ _ => .catchClause
  | .tryCatch _ _ _ _ => .tryStmt
  | .throw _ _ => .throwStmt
  | .bare value => value.kind
  | .program _ _ => .program

def isMissing : Stmt → Bool
  | .missing => true
  | _ => false

end Stmt

/-- Whether a type text says anything: an absent and an empty one do not. -/
def isTyped (type : Option String) : Bool :=
  match type with
  | none => false
  | some text => text != ""

end TryGo
