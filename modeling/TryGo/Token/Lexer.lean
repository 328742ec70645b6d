import TryGo.Token.Basic

/-! The division of a source text into tokens. Blanks separate tokens and are dropped;
every other character belongs to exactly one token. Lexing never fails: a character that
starts no token becomes an illegal token of its own, and a literal or block comment
without its closing delimiter runs to the end of the text.

A lexer is the unread text with its position. One step skips blanks and takes one lexeme,
whose span is a non-empty beginning of the rest, so the token list is defined by recursion
on the length of the unread text. -/
namespace TryGo

/-- The characters that separate tokens. -/
def isBlank (c : Char) : Bool := c == ' ' || c == '\t' || c == '\n' || c == '\r'

/-- The characters that may start an identifier. Only ASCII letters count. -/
def isWordStart (c : Char) : Bool := c.isAlpha || c == '_'

/-- The characters that may follow in an identifier. -/
def isWordChar (c : Char) : Bool := c.isAlphanum || c == '_'

def isHexDigit (c : Char) : Bool :=
  c.isDigit || ('a' ≤ c && c ≤ 'f') || ('A' ≤ c && c ≤ 'F')

def isOctalDigit (c : Char) : Bool := '0' ≤ c && c ≤ '7'

def isBinaryDigit (c : Char) : Bool := c == '0' || c == '1'

/-- The delimiter of a raw string. -/
def backtick : Char := '\x60'

/-- One token without its position: its kind, its literal, and its span, which is the source
text that it covers. -/
structure Lexeme where
  kind : TokenKind
  literal : List Char
  span : List Char
deriving DecidableEq

namespace Lexeme

/-- A lexeme whose literal is its whole span. -/
def plain (kind : TokenKind) (span : List Char) : Lexeme := ⟨kind, span, span⟩

/-- A maximal run of word characters, a keyword if it is reserved. -/
def word (rest : List Char) : Lexeme :=
  let span := rest.takeWhile isWordChar
  plain (TokenKind.ofWord (String.ofList span)) span

/-- The fraction of a number: a point with at least one digit behind it. -/
def fraction : List Char → List Char
  | '.' :: d :: rest => if d.isDigit then '.' :: (d :: rest).takeWhile Char.isDigit else []
  | _ => []

/-- The digits of an exponent with their optional sign. There may be none. -/
def exponentDigits : List Char → List Char
  | [] => []
  | c :: rest =>
      if c == '+' || c == '-' then c :: rest.takeWhile Char.isDigit
      else (c :: rest).takeWhile Char.isDigit

/-- The exponent of a number. The mark counts even when no digits follow it. -/
def exponent : List Char → List Char
  | [] => []
  | c :: rest => if c == 'e' || c == 'E' then c :: exponentDigits rest else []

/-- A decimal number: an integer unless it has a fraction or an exponent. -/
def decimal (rest : List Char) : Lexeme :=
  let whole := rest.takeWhile Char.isDigit
  let part := fraction (rest.drop whole.length)
  let power := exponent (rest.drop (whole.length + part.length))
  let kind := if part.isEmpty && power.isEmpty then TokenKind.int else .float
  plain kind (whole ++ part ++ power)

/-- The digits that may follow the base mark of a prefixed integer. -/
def baseDigits (mark : Char) : Option (Char → Bool) :=
  if mark == 'x' || mark == 'X' then some isHexDigit
  else if mark == 'b' || mark == 'B' then some isBinaryDigit
  else if mark == 'o' || mark == 'O' then some isOctalDigit
  else none

/-- A number. A zero with a base mark takes the digits of that base, possibly none. -/
def number : List Char → Lexeme
  | '0' :: mark :: rest =>
      match baseDigits mark with
      | some isBaseDigit => plain .int ('0' :: mark :: rest.takeWhile isBaseDigit)
      | none => decimal ('0' :: mark :: rest)
  | rest => decimal rest

/-- The content of a quoted literal: everything up to the first quote that no backslash
precedes. A backslash takes the next character with it, whatever that is. -/
def quotedContent (quote : Char) : List Char → List Char
  | [] => []
  | c :: rest =>
      if c = quote then []
      else if c = '\\' then
        match rest with
        | [] => ['\\']
        | d :: rest => '\\' :: d :: quotedContent quote rest
      else c :: quotedContent quote rest

/-- A delimited lexeme: the delimiter, the content, and the delimiter again if the text
goes on. `content` has to end where the text ends or the delimiter stands. -/
def delimited (kind : TokenKind) (mark : Char) (content rest : List Char) : Lexeme :=
  let closing := (rest.drop content.length).take 1
  ⟨kind, content, mark :: content ++ closing⟩

/-- The rest of a block comment after its opening mark. -/
def blockCommentTail : List Char → List Char
  | [] => []
  | '*' :: '/' :: _ => ['*', '/']
  | c :: rest => c :: blockCommentTail rest

/-- The longest operator that the text starts with, or one illegal character. -/
def operator (rest : List Char) : Lexeme :=
  match TokenKind.operators.find? fun entry => entry.1.isPrefixOf rest with
  | some (span, kind) => plain kind span
  | none => plain .illegal (rest.take 1)

/-- The lexeme of a slash with the given text after it: a comment or an operator. A line
comment ends before the newline. -/
def slash : List Char → Lexeme
  | '/' :: rest => plain .comment ('/' :: '/' :: rest.takeWhile (· != '\n'))
  | '*' :: rest => plain .blockComment ('/' :: '*' :: blockCommentTail rest)
  | rest => operator ('/' :: rest)

/-- The lexeme at the start of a text that does not start with a blank. The empty text has
none, and the answer for it is of no use. -/
def scan : List Char → Lexeme
  | [] => plain .illegal []
  | c :: rest =>
      if isWordStart c then word (c :: rest)
      else if c.isDigit then number (c :: rest)
      else if c = '"' then delimited .string '"' (quotedContent '"' rest) rest
      else if c = '\'' then delimited .char '\'' (quotedContent '\'' rest) rest
      else if c = backtick then delimited .rawString backtick (rest.takeWhile (· != backtick)) rest
      else if c = '/' then slash rest
      else operator (c :: rest)

theorem isWordChar_of_isWordStart {c : Char} (hStart : isWordStart c = true) :
    isWordChar c = true := by
  simp only [isWordStart, isWordChar, Char.isAlphanum, Bool.or_eq_true] at hStart ⊢
  rcases hStart with hAlpha | hLine
  · exact Or.inl (Or.inl hAlpha)
  · exact Or.inr hLine

/-- No operator is empty. -/
theorem operators_ne_nil {entry : List Char × TokenKind} (hMem : entry ∈ TokenKind.operators) :
    entry.1 ≠ [] := by
  revert entry
  decide

theorem span_decimal_ne_nil (c : Char) (rest : List Char) (hDigit : c.isDigit = true) :
    (decimal (c :: rest)).span ≠ [] := by
  simp [decimal, plain, hDigit]

theorem span_number_ne_nil (c : Char) (rest : List Char) (hDigit : c.isDigit = true) :
    (number (c :: rest)).span ≠ [] := by
  unfold number
  split
  · split
    · simp [plain]
    · exact span_decimal_ne_nil _ _ (by decide)
  · exact span_decimal_ne_nil c rest hDigit

theorem span_operator_ne_nil (c : Char) (rest : List Char) :
    (operator (c :: rest)).span ≠ [] := by
  unfold operator
  split
  next span kind hFind => exact operators_ne_nil (List.mem_of_find?_eq_some hFind)
  next => simp [plain]

theorem span_slash_ne_nil (rest : List Char) : (slash rest).span ≠ [] := by
  unfold slash
  split
  · simp [plain]
  · simp [plain]
  · exact span_operator_ne_nil '/' rest

/-- Every lexeme covers at least one character, so lexing makes progress. -/
theorem span_scan_ne_nil (c : Char) (rest : List Char) : (scan (c :: rest)).span ≠ [] := by
  rw [scan]
  split
  next hStart => simp [word, plain, isWordChar_of_isWordStart hStart]
  split
  next hDigit => exact span_number_ne_nil c rest hDigit
  split
  · simp [delimited]
  split
  · simp [delimited]
  split
  · simp [delimited]
  split
  · exact span_slash_ne_nil rest
  · exact span_operator_ne_nil c rest

end Lexeme

/-- A lexer: the unread text and the position of its first character. -/
structure Lexer where
  rest : List Char
  pos : Position
deriving DecidableEq

namespace Lexer

def ofString (source : String) : Lexer := ⟨source.toList, Position.start⟩

def drop (lexer : Lexer) (count : Nat) : Lexer :=
  ⟨lexer.rest.drop count, lexer.pos.advance (lexer.rest.take count)⟩

/-- Moves past the blanks in front of the next token. -/
def skipBlanks (lexer : Lexer) : Lexer := lexer.drop (lexer.rest.takeWhile isBlank).length

/-- One step at a text that does not start with a blank: the token there and the lexer
after it. At the end of the text the answer is the end mark, and the lexer stays. -/
def take (lexer : Lexer) : Token × Lexer :=
  match lexer.rest with
  | [] => (Token.eof lexer.pos, lexer)
  | c :: rest =>
      let lexeme := Lexeme.scan (c :: rest)
      (⟨lexeme.kind, String.ofList lexeme.literal, lexer.pos⟩, lexer.drop lexeme.span.length)

def next (lexer : Lexer) : Token × Lexer := lexer.skipBlanks.take

theorem length_rest_drop (lexer : Lexer) (count : Nat) :
    (lexer.drop count).rest.length = lexer.rest.length - count := by
  simp [drop]

/-- A step that finds a token leaves less text. -/
theorem length_rest_take_lt (lexer : Lexer) (hRest : lexer.rest ≠ []) :
    lexer.take.2.rest.length < lexer.rest.length := by
  unfold take
  split
  next hNil => exact absurd hNil hRest
  next c rest hCons =>
    have hSpan := List.length_pos_iff.mpr (Lexeme.span_scan_ne_nil c rest)
    have hRest := List.length_pos_iff.mpr hRest
    rw [length_rest_drop]
    omega

theorem length_rest_next_lt (lexer : Lexer) (hRest : lexer.skipBlanks.rest ≠ []) :
    lexer.next.2.rest.length < lexer.rest.length := by
  have hTake := length_rest_take_lt lexer.skipBlanks hRest
  have hSkip : lexer.skipBlanks.rest.length ≤ lexer.rest.length := by
    rw [skipBlanks, length_rest_drop]
    omega
  unfold next
  omega

/-- The tokens of the unread text without the end mark. -/
def words (lexer : Lexer) : List Token :=
  if _ : lexer.skipBlanks.rest = [] then []
  else lexer.next.1 :: words lexer.next.2
termination_by lexer.rest.length
decreasing_by exact length_rest_next_lt lexer ‹_›

def endPos (lexer : Lexer) : Position := lexer.pos.advance lexer.rest

/-- All tokens of the unread text, closed by one end mark. -/
def tokens (lexer : Lexer) : List Token := lexer.words ++ [Token.eof lexer.endPos]

def skip (lexer : Lexer) : Nat → Lexer
  | 0 => lexer
  | count + 1 => lexer.next.2.skip count

/-- The lexer at the end of its text. -/
def exhausted (lexer : Lexer) : Lexer := ⟨[], lexer.endPos⟩

end Lexer

def tokenize (source : String) : List Token := (Lexer.ofString source).tokens

end TryGo
