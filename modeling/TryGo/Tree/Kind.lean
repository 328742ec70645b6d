/-! The kinds of tree node. A kind is named in listings and placeholders by its spelling
below. -/
namespace TryGo

/-- What a node of a tree is. `absent` is the kind of a hole, where a child is missing. -/
inductive NodeKind where
  | absent
  | program
  | identifier | integer | float | string | char | boolean | nil
  | unary | binary | call | select | index
  | package | imports | varDecl | constDecl | assign | define | ret | expression | increment
  | branch | comment | block | conditional | loop | function | catchClause | tryStmt | throwStmt
deriving DecidableEq, Inhabited

namespace NodeKind

def all : List NodeKind :=
  [.absent, .program, .identifier, .integer, .float, .string, .char, .boolean, .nil, .unary,
   .binary, .call, .select, .index, .package, .imports, .varDecl, .constDecl, .assign, .define,
   .ret, .expression, .increment, .branch, .comment, .block, .conditional, .loop, .function,
   .catchClause, .tryStmt, .throwStmt]

def name : NodeKind → String
  | .absent => "NoneType"
  | .program => "Program"
  | .identifier => "Identifier"
  | .integer => "IntegerLiteral"
  | .float => "FloatLiteral"
  | .string => "StringLiteral"
  | .char => "CharLiteral"
  | .boolean => "BooleanLiteral"
  | .nil => "NilLiteral"
  | .unary => "PrefixExpression"
  | .binary => "InfixExpression"
  | .call => "CallExpression"
  | .select => "DotExpression"
  | .index => "IndexExpression"
  | .package => "PackageStatement"
  | .imports => "ImportStatement"
  | .varDecl => "VarStatement"
  | .constDecl => "ConstStatement"
  | .assign => "AssignStatement"
  | .define => "DefineStatement"
  | .ret => "ReturnStatement"
  | .expression => "ExpressionStatement"
  | .increment => "IncrementStatement"
  | .branch => "BranchStatement"
  | .comment => "CommentStatement"
  | .block => "BlockStatement"
  | .conditional => "IfStatement"
  | .loop => "ForStatement"
  | .function => "FunctionStatement"
  | .catchClause => "CatchBlock"
  | .tryStmt => "TryStatement"
  | .throwStmt => "ThrowStatement"

def ofName? (text : String) : Option NodeKind := all.find? fun kind => kind.name == text

end NodeKind

end TryGo
