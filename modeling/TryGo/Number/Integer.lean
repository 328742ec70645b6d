import TryGo.Token.Lexer

/-! The values of integer literals. A literal is decimal, or carries the mark of base 16, 2
or 8 after a zero, or is octal because a zero starts it and a digit follows. Decimal
literals and decimal renderings are limited in length; the other bases are not. -/
namespace TryGo.Number

/-- The value of a digit of any base up to sixteen. -/
def digitValue (c : Char) : Nat :=
  if c.isDigit then c.toNat - '0'.toNat
  else if 'a' ≤ c && c ≤ 'f' then c.toNat - 'a'.toNat + 10
  else if 'A' ≤ c && c ≤ 'F' then c.toNat - 'A'.toNat + 10
  else 0

/-- The value of a digit sequence in a base, the most significant digit first. -/
def digitsValue (base : Nat) (digits : List Char) : Nat :=
  digits.foldl (fun value d => value * base + digitValue d) 0

/-- The most decimal digits that a decimal literal or a decimal rendering may have. -/
def maxDecimalDigits : Nat := 4300

/-- The value of a sequence of digits that has to be non-empty and all of one class. -/
def classValue? (base : Nat) (isClassDigit : Char → Bool) (digits : List Char) : Option Nat :=
  if !digits.isEmpty && digits.all isClassDigit then some (digitsValue base digits) else none

/-- The value of an integer literal, if it has one. -/
def integerValue? : List Char → Option Nat
  | '0' :: mark :: digits =>
      if mark == 'x' || mark == 'X' then classValue? 16 isHexDigit digits
      else if mark == 'b' || mark == 'B' then classValue? 2 isBinaryDigit digits
      else if mark == 'o' || mark == 'O' then classValue? 8 isOctalDigit digits
      else classValue? 8 isOctalDigit (mark :: digits)
  | digits =>
      if digits.length ≤ maxDecimalDigits then classValue? 10 Char.isDigit digits else none

def twoTo (n : Nat) : Nat := Nat.pow 2 n

def tenTo (n : Nat) : Nat := Nat.pow 10 n

/-- The least absolute value whose decimal rendering is too long. -/
def renderBound : Nat := tenTo maxDecimalDigits

/-- Whether the decimal rendering of a number would be too long. -/
def isUnrenderable (value : Int) : Bool := renderBound ≤ value.natAbs

end TryGo.Number
