/-! White space in the wide sense, as Unicode has it, and what is defined by it: trimming a
text and breaking it into lines. This is not the set of blanks that separate tokens, which
has four characters only. -/
namespace TryGo.Text

/-- The white-space characters: the ASCII separators, next line, and every Unicode space and
line or paragraph separator. -/
def isSpace (c : Char) : Bool :=
  let n := c.toNat
  (0x09 ≤ n && n ≤ 0x0D) || (0x1C ≤ n && n ≤ 0x20) || n == 0x85 || n == 0xA0 || n == 0x1680
    || (0x2000 ≤ n && n ≤ 0x200A) || n == 0x2028 || n == 0x2029 || n == 0x202F || n == 0x205F
    || n == 0x3000

def trimRight (text : List Char) : List Char := (text.reverse.dropWhile isSpace).reverse

def trim (text : List Char) : List Char := trimRight (text.dropWhile isSpace)

/-- The characters that end a line. A carriage return and the newline after it are one end. -/
def isLineEnd (c : Char) : Bool :=
  let n := c.toNat
  (0x0A ≤ n && n ≤ 0x0D) || (0x1C ≤ n && n ≤ 0x1E) || n == 0x85 || n == 0x2028 || n == 0x2029

/-- The lines of a text without their ends, given the characters of the first line that were
already read, newest first. A line end at the end of the text starts no further line. -/
def linesFrom (line : List Char) : List Char → List (List Char)
  | [] => if line.isEmpty then [] else [line.reverse]
  | '\r' :: '\n' :: rest => line.reverse :: linesFrom [] rest
  | c :: rest =>
      if isLineEnd c then line.reverse :: linesFrom [] rest else linesFrom (c :: line) rest

/-- The lines of a text without their ends. The empty text has none. -/
def lines (text : List Char) : List (List Char) := linesFrom [] text

end TryGo.Text
