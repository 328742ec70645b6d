import TryGo.Token.Kind

/-! How tightly operators bind. The parser asks for the level of a token kind and the
printer for the level of an operator text; the two tables agree on the binary operators. -/
namespace TryGo

/-- The levels of binding, the loosest first. -/
inductive Precedence where
  | lowest | logicalOr | logicalAnd | equals | lessGreater | sum | product | unary | call | dot
deriving DecidableEq, Inhabited

namespace Precedence

/-- The level as a number. A higher number binds tighter. -/
def level : Precedence → Nat
  | .lowest => 1
  | .logicalOr => 2
  | .logicalAnd => 3
  | .equals => 4
  | .lessGreater => 5
  | .sum => 6
  | .product => 7
  | .unary => 8
  | .call => 9
  | .dot => 10

def name : Precedence → String
  | .lowest => "LOWEST"
  | .logicalOr => "LOGICAL_OR"
  | .logicalAnd => "LOGICAL_AND"
  | .equals => "EQUALS"
  | .lessGreater => "LESSGREATER"
  | .sum => "SUM"
  | .product => "PRODUCT"
  | .unary => "PREFIX"
  | .call => "CALL"
  | .dot => "DOT"

/-- The kinds that continue an expression, with their levels. -/
def ofKinds : List (TokenKind × Precedence) :=
  [(.or, .logicalOr), (.and, .logicalAnd), (.eq, .equals), (.notEq, .equals),
   (.lt, .lessGreater), (.gt, .lessGreater), (.le, .lessGreater), (.ge, .lessGreater),
   (.plus, .sum), (.minus, .sum), (.bitOr, .sum), (.bitXor, .sum), (.asterisk, .product),
   (.slash, .product), (.percent, .product), (.bitAnd, .product), (.shl, .product),
   (.shr, .product), (.lparen, .call), (.lbracket, .call), (.dot, .dot)]

def ofOperators : List (String × Precedence) :=
  [("||", .logicalOr), ("&&", .logicalAnd), ("==", .equals), ("!=", .equals),
   ("<", .lessGreater), (">", .lessGreater), ("<=", .lessGreater), (">=", .lessGreater),
   ("+", .sum), ("-", .sum), ("|", .sum), ("^", .sum), ("*", .product), ("/", .product),
   ("%", .product), ("&", .product), ("<<", .product), (">>", .product)]

/-- The level of a kind. One that does not continue an expression has the lowest. -/
def ofKind (kind : TokenKind) : Precedence := (ofKinds.lookup kind).getD .lowest

/-- The level of an operator text. An unknown operator has the lowest. -/
def ofOperator (op : String) : Precedence := (ofOperators.lookup op).getD .lowest

end Precedence

namespace TokenKind

def assignOperators : List TokenKind :=
  [.assign, .plusAssign, .minusAssign, .mulAssign, .divAssign, .modAssign, .andAssign,
   .orAssign, .xorAssign, .shlAssign, .shrAssign]

def typeStarts : List TokenKind :=
  [.ident, .asterisk, .lbracket, .kwMap, .kwChan, .arrow, .kwInterface, .kwStruct, .kwFunc]

/-- The kinds before which a return carries no value. -/
def bareReturnFollowers : List TokenKind := [.semicolon, .rbrace, .eof, .comment, .blockComment]

end TokenKind

end TryGo
