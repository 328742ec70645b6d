/-! The kinds of token the language has. A kind is named in messages by its capital
spelling, and its place in `TokenKind.all` is its number, counted from one. Keywords and
operators are given by two tables. Each table is a bijection between texts and kinds:
no text and no kind occurs twice in it. -/
namespace TryGo

/-- What class a token belongs to. `illegal` is one character that starts no token, and
`eof` is the mark that stands after the last token. -/
inductive TokenKind where
  | illegal | eof
  | ident | int | float | string | rawString | char
  | plus | minus | asterisk | slash | percent
  | assign | plusAssign | minusAssign | mulAssign | divAssign | modAssign | andAssign
  | orAssign | xorAssign | shlAssign | shrAssign | define
  | inc | dec
  | eq | notEq | lt | gt | le | ge
  | and | or | bang
  | bitAnd | bitOr | bitXor | shl | shr
  | comma | semicolon | colon | dot | ellipsis | lparen | rparen | lbrace | rbrace | lbracket
  | rbracket
  | arrow | funcArrow
  | comment | blockComment
  | kwBreak | kwCase | kwChan | kwConst | kwContinue | kwDefault | kwDefer | kwElse
  | kwFallthrough | kwFor | kwFunc | kwGo | kwGoto | kwIf | kwImport | kwInterface | kwMap
  | kwPackage | kwRange | kwReturn | kwSelect | kwStruct | kwSwitch | kwType | kwVar
  | kwTrue | kwFalse | kwNil
  | kwTry | kwCatch | kwThrow | kwFinally
deriving DecidableEq, Inhabited

namespace TokenKind

/-- Every kind, in the order in which kinds are numbered. -/
def all : List TokenKind :=
  [.illegal, .eof, .ident, .int, .float, .string, .rawString, .char, .plus, .minus, .asterisk,
   .slash, .percent, .assign, .plusAssign, .minusAssign, .mulAssign, .divAssign, .modAssign,
   .andAssign, .orAssign, .xorAssign, .shlAssign, .shrAssign, .define, .inc, .dec, .eq, .notEq,
   .lt, .gt, .le, .ge, .and, .or, .bang, .bitAnd, .bitOr, .bitXor, .shl, .shr, .comma,
   .semicolon, .colon, .dot, .ellipsis, .lparen, .rparen, .lbrace, .rbrace, .lbracket,
   .rbracket, .arrow, .funcArrow, .comment, .blockComment, .kwBreak, .kwCase, .kwChan,
   .kwConst, .kwContinue, .kwDefault, .kwDefer, .kwElse, .kwFallthrough, .kwFor, .kwFunc,
   .kwGo, .kwGoto, .kwIf, .kwImport, .kwInterface, .kwMap, .kwPackage, .kwRange, .kwReturn,
   .kwSelect, .kwStruct, .kwSwitch, .kwType, .kwVar, .kwTrue, .kwFalse, .kwNil, .kwTry,
   .kwCatch, .kwThrow, .kwFinally]

/-- The spelling of a kind in messages and listings. -/
def name : TokenKind → String
  | .illegal => "ILLEGAL"
  | .eof => "EOF"
  | .ident => "IDENT"
  | .int => "INT"
  | .float => "FLOAT"
  | .string => "STRING"
  | .rawString => "RAW_STRING"
  | .char => "CHAR"
  | .plus => "PLUS"
  | .minus => "MINUS"
  | .asterisk => "ASTERISK"
  | .slash => "SLASH"
  | .percent => "PERCENT"
  | .assign => "ASSIGN"
  | .plusAssign => "PLUS_ASSIGN"
  | .minusAssign => "MINUS_ASSIGN"
  | .mulAssign => "MUL_ASSIGN"
  | .divAssign => "DIV_ASSIGN"
  | .modAssign => "MOD_ASSIGN"
  | .andAssign => "AND_ASSIGN"
  | .orAssign => "OR_ASSIGN"
  | .xorAssign => "XOR_ASSIGN"
  | .shlAssign => "SHL_ASSIGN"
  | .shrAssign => "SHR_ASSIGN"
  | .define => "DEFINE"
  | .inc => "INC"
  | .dec => "DEC"
  | .eq => "EQ"
  | .notEq => "NOT_EQ"
  | .lt => "LT"
  | .gt => "GT"
  | .le => "LE"
  | .ge => "GE"
  | .and => "AND"
  | .or => "OR"
  | .bang => "BANG"
  | .bitAnd => "BIT_AND"
  | .bitOr => "BIT_OR"
  | .bitXor => "BIT_XOR"
  | .shl => "SHL"
  | .shr => "SHR"
  | .comma => "COMMA"
  | .semicolon => "SEMICOLON"
  | .colon => "COLON"
  | .dot => "DOT"
  | .ellipsis => "ELLIPSIS"
  | .lparen => "LPAREN"
  | .rparen => "RPAREN"
  | .lbrace => "LBRACE"
  | .rbrace => "RBRACE"
  | .lbracket => "LBRACKET"
  | .rbracket => "RBRACKET"
  | .arrow => "ARROW"
  | .funcArrow => "FUNC_ARROW"
  | .comment => "COMMENT"
  | .blockComment => "BLOCK_COMMENT"
  | .kwBreak => "BREAK"
  | .kwCase => "CASE"
  | .kwChan => "CHAN"
  | .kwConst => "CONST"
  | .kwContinue => "CONTINUE"
  | .kwDefault => "DEFAULT"
  | .kwDefer => "DEFER"
  | .kwElse => "ELSE"
  | .kwFallthrough => "FALLTHROUGH"
  | .kwFor => "FOR"
  | .kwFunc => "FUNC"
  | .kwGo => "GO"
  | .kwGoto => "GOTO"
  | .kwIf => "IF"
  | .kwImport => "IMPORT"
  | .kwInterface => "INTERFACE"
  | .kwMap => "MAP"
  | .kwPackage => "PACKAGE"
  | .kwRange => "RANGE"
  | .kwReturn => "RETURN"
  | .kwSelect => "SELECT"
  | .kwStruct => "STRUCT"
  | .kwSwitch => "SWITCH"
  | .kwType => "TYPE"
  | .kwVar => "VAR"
  | .kwTrue => "TRUE"
  | .kwFalse => "FALSE"
  | .kwNil => "NIL"
  | .kwTry => "TRY"
  | .kwCatch => "CATCH"
  | .kwThrow => "THROW"
  | .kwFinally => "FINALLY"

/-- The number of a kind: its place in `all`, counted from one. -/
def number (kind : TokenKind) : Nat := all.idxOf kind + 1

def ofName? (text : String) : Option TokenKind := all.find? fun kind => kind.name == text

def keywords : List (String × TokenKind) :=
  [("break", .kwBreak), ("case", .kwCase), ("chan", .kwChan), ("const", .kwConst),
   ("continue", .kwContinue), ("default", .kwDefault), ("defer", .kwDefer), ("else", .kwElse),
   ("fallthrough", .kwFallthrough), ("for", .kwFor), ("func", .kwFunc), ("go", .kwGo),
   ("goto", .kwGoto), ("if", .kwIf), ("import", .kwImport), ("interface", .kwInterface),
   ("map", .kwMap), ("package", .kwPackage), ("range", .kwRange), ("return", .kwReturn),
   ("select", .kwSelect), ("struct", .kwStruct), ("switch", .kwSwitch), ("type", .kwType),
   ("var", .kwVar), ("true", .kwTrue), ("false", .kwFalse), ("nil", .kwNil), ("try", .kwTry),
   ("catch", .kwCatch), ("throw", .kwThrow), ("finally", .kwFinally)]

/-- The kind of a word: its keyword kind if it is reserved, and an identifier otherwise. -/
def ofWord (word : String) : TokenKind := (keywords.lookup word).getD .ident

/-- The spelling of a keyword kind. The other kinds have none. -/
def keyword? (kind : TokenKind) : Option String :=
  (keywords.find? fun entry => entry.2 == kind).map Prod.fst

/-- The operators and delimiters with their kinds, longer ones first. The first entry that
is a prefix of a text is therefore the longest one that is. -/
def operators : List (List Char × TokenKind) :=
  [(['<', '<', '='], .shlAssign), (['>', '>', '='], .shrAssign), (['.', '.', '.'], .ellipsis),
   (['+', '='], .plusAssign), (['-', '='], .minusAssign), (['*', '='], .mulAssign),
   (['/', '='], .divAssign), (['%', '='], .modAssign), (['&', '='], .andAssign),
   (['|', '='], .orAssign), (['^', '='], .xorAssign), ([':', '='], .define),
   (['+', '+'], .inc), (['-', '-'], .dec), (['=', '='], .eq), (['!', '='], .notEq),
   (['<', '='], .le), (['>', '='], .ge), (['&', '&'], .and), (['|', '|'], .or),
   (['<', '<'], .shl), (['>', '>'], .shr), (['<', '-'], .arrow), (['-', '>'], .funcArrow),
   (['+'], .plus), (['-'], .minus), (['*'], .asterisk), (['/'], .slash), (['%'], .percent),
   (['='], .assign), (['<'], .lt), (['>'], .gt), (['!'], .bang), (['&'], .bitAnd),
   (['|'], .bitOr), (['^'], .bitXor), ([','], .comma), ([';'], .semicolon), ([':'], .colon),
   (['.'], .dot), (['('], .lparen), ([')'], .rparen), (['{'], .lbrace), (['}'], .rbrace),
   (['['], .lbracket), ([']'], .rbracket)]

def isComment (kind : TokenKind) : Bool := kind == .comment || kind == .blockComment

end TokenKind

end TryGo
