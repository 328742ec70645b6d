import TryGo.Text.Space

/-! Reading a signed integer from a setting. Digits of every script count, each script
having its ten digits side by side from its zero, and white space around the number is
ignored. -/
namespace TryGo.Text

/-- The zeros of the scripts that have decimal digits. The other nine digits follow each. -/
def digitZeros : List Nat :=
  [0x30, 0x660, 0x6F0, 0x7C0, 0x966, 0x9E6, 0xA66, 0xAE6, 0xB66, 0xBE6, 0xC66, 0xCE6, 0xD66,
   0xDE6, 0xE50, 0xED0, 0xF20, 0x1040, 0x1090, 0x17E0, 0x1810, 0x1946, 0x19D0, 0x1A80, 0x1A90,
   0x1B50, 0x1BB0, 0x1C40, 0x1C50, 0xA620, 0xA8D0, 0xA900, 0xA9D0, 0xA9F0, 0xAA50, 0xABF0,
   0xFF10, 0x104A0, 0x10D30, 0x11066, 0x110F0, 0x11136, 0x111D0, 0x112F0, 0x11450, 0x114D0,
   0x11650, 0x116C0, 0x11730, 0x118E0, 0x11950, 0x11C50, 0x11D50, 0x11DA0, 0x16A60, 0x16AC0,
   0x16B50, 0x1D7CE, 0x1D7D8, 0x1D7E2, 0x1D7EC, 0x1D7F6, 0x1E140, 0x1E2F0, 0x1E950, 0x1FBF0]

/-- The value of a decimal digit of any script. -/
def decimalDigit? (c : Char) : Option Nat :=
  (digitZeros.find? fun first => first ≤ c.toNat && c.toNat ≤ first + 9).map fun first =>
    c.toNat - first

/-- White space around a number. The four ASCII separators are not among it. -/
def isNumberSpace (c : Char) : Bool := isSpace c && !(0x1C ≤ c.toNat && c.toNat ≤ 0x1F)

/-- The values of the digits of a number, most significant first. Single underscores may
stand between digits. -/
def digitValues? : List Char → Option (List Nat)
  | [] => none
  | [c] => (decimalDigit? c).map fun d => [d]
  | c :: '_' :: rest => do
      let d ← decimalDigit? c
      let ds ← digitValues? rest
      return d :: ds
  | c :: rest => do
      let d ← decimalDigit? c
      let ds ← digitValues? rest
      return d :: ds

/-- Numbers with more digits than this are refused. -/
def digitLimit : Nat := 4300

/-- An unsigned number of at most `digitLimit` digits, leading zeros counted. -/
def readNat? (text : List Char) : Option Nat := do
  let digits ← digitValues? text
  if digits.length ≤ digitLimit then some (digits.foldl (fun n d => 10 * n + d) 0) else none

/-- A number with an optional sign and white space around it. -/
def readInt? (text : String) : Option Int :=
  let inner := text.toList.dropWhile isNumberSpace
  match (inner.reverse.dropWhile isNumberSpace).reverse with
  | '-' :: rest => (readNat? rest).map fun n => -(n : Int)
  | '+' :: rest => (readNat? rest).map fun n => (n : Int)
  | rest => (readNat? rest).map fun n => (n : Int)

end TryGo.Text
