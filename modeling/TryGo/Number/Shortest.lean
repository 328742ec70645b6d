import TryGo.Number.Binary64

/-! The shortest decimal text of a double: the fewest digits that read back as it, and of
two numbers with that many digits the nearer one. Digit counts are tried in turn. For each
only two numbers come into question, the neighbours of the value on the grid of decimals
with that many digits. Seventeen digits are always enough. -/
namespace TryGo.Number

/-- A number in decimal: `mantissa` times ten to the power `exponent`. -/
structure Decimal where
  mantissa : Nat
  exponent : Int
deriving DecidableEq

def digitCount (n : Nat) : Nat := (Nat.toDigits 10 n).length

/-- The largest power of ten, as an exponent, that is at most a positive fraction. -/
def floorLogTen (num den : Nat) : Int :=
  if den ≤ num then (digitCount (num / den) : Int) - 1 else -(digitCount ((den - 1) / num) : Int)

namespace Decimal

/-- The double nearest to a decimal. -/
def read (d : Decimal) : Binary64 := Binary64.ofDecimal d.mantissa d.exponent

/-- The neighbours of a fraction among the multiples of ten to the power `exponent`, the
nearer one first. A tie goes to the even multiple. -/
def neighbours (num den : Nat) (exponent : Int) : List Decimal :=
  let num := num * tenTo (-exponent).toNat
  let den := den * tenTo exponent.toNat
  let below := num / den
  if roundHalfEven num den = below then [⟨below, exponent⟩, ⟨below + 1, exponent⟩]
  else [⟨below + 1, exponent⟩, ⟨below, exponent⟩]

/-- The digits of the mantissa without the zeros at its end. -/
def digits (d : Decimal) : List Char :=
  ((Nat.toDigits 10 d.mantissa).reverse.dropWhile (· == '0')).reverse

/-- The power of ten, as an exponent, that the first digit stands for. -/
def leading (d : Decimal) : Int := d.exponent + digitCount d.mantissa - 1

/-- Digits with the point among them. There is at least one digit on either side. -/
def positional (digits : List Char) (leading : Int) : List Char :=
  let zeros := List.replicate (-leading).toNat '0'
  let whole := (leading + 1).toNat
  let padded := zeros ++ digits ++ List.replicate (whole + 1 - digits.length) '0'
  let split := max whole 1
  padded.take split ++ '.' :: padded.drop split

/-- Digits with the point behind the first of them, and a power of ten. The point is left
out behind a single digit, and the power has at least two digits. -/
def scientific (digits : List Char) (leading : Int) : List Char :=
  let power := Nat.toDigits 10 leading.natAbs
  digits.take 1 ++ (if digits.length ≤ 1 then [] else '.' :: digits.drop 1)
    ++ ['e', if leading < 0 then '-' else '+']
    ++ List.replicate (2 - power.length) '0' ++ power

/-- A positive decimal, positional if its first digit stands for one of the powers from ten
to the minus four to ten to the fifteen. -/
def text (d : Decimal) : String :=
  String.ofList
    (if -4 ≤ d.leading && d.leading < 16 then positional d.digits d.leading
     else scientific d.digits d.leading)

end Decimal

namespace Binary64

/-- The digits that are always enough to tell two doubles apart. -/
def maxDigits : Nat := 17

def abs (x : Binary64) : Binary64 := ⟨UInt64.ofNat (x.bits.toNat % twoTo 63)⟩

/-- The shortest decimal that reads back as a positive double. A zero has no digits. -/
def shortest? (x : Binary64) : Option Decimal :=
  let (num, den) := x.fraction
  let isReading (d : Decimal) : Bool := d.read == x
  if num = 0 then none
  else
    (List.range maxDigits).findSome? fun (more : Nat) =>
      (Decimal.neighbours num den (floorLogTen num den - more)).find? isReading

/-- A double in the shortest form. The values that are no finite numbers have names, and the
sign of a zero shows. -/
def shortestText (x : Binary64) : String :=
  match x.specialName? with
  | some name => name
  | none => x.sign ++ ((x.abs.shortest?.map Decimal.text).getD "0.0")

end Binary64

end TryGo.Number
