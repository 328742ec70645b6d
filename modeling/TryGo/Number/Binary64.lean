import TryGo.Number.Integer

/-! Double-precision numbers as their bits, without an arithmetic of floating point. A
decimal literal is rounded to the nearest double, ties going to the even neighbour, and a
double is written with six decimals, rounded in the same way. Both work on exact fractions
of natural numbers. -/
namespace TryGo.Number

/-- A double, given by its sixty-four bits. Two doubles are equal here when their bits are,
which for the values of literals is equality of numbers. -/
structure Binary64 where
  bits : UInt64
deriving DecidableEq, Inhabited

/-- The quotient rounded to the nearest integer, ties going to the even one. -/
def roundHalfEven (num den : Nat) : Nat :=
  let quotient := num / den
  let twice := 2 * (num % den)
  if twice > den || (twice == den && quotient % 2 == 1) then quotient + 1 else quotient

namespace Binary64

def zero : Binary64 := ⟨0⟩

/-- The bits of positive infinity, which are those of the first number out of range. -/
def infinityBits : Nat := 0x7FF0000000000000

/-- The largest power of two, as an exponent, that is at most a positive fraction. -/
def floorLog (num den : Nat) : Int :=
  let guess : Int := (num.log2 : Int) - den.log2
  let reached :=
    if 0 ≤ guess then den * twoTo guess.toNat ≤ num else den ≤ num * twoTo (-guess).toNat
  if reached then guess else guess - 1

/-- The double nearest to a positive fraction. With the last place of the significand at
two to the power `place`, the significand and the exponent field add up to the bits. -/
def ofFraction (num den : Nat) : Binary64 :=
  let place : Int := max (-1074) (floorLog num den - 52)
  let significand :=
    if 0 ≤ place then roundHalfEven num (den * twoTo place.toNat)
    else roundHalfEven (num * twoTo (-place).toNat) den
  let bits := (place + 1074).toNat * twoTo 52 + significand
  ⟨UInt64.ofNat (min bits infinityBits)⟩

/-- The double nearest to `mantissa` times ten to the power `exponent`. Exponents beyond
the range of doubles are settled first, so the fraction stays small. -/
def ofDecimal (mantissa : Nat) (exponent : Int) : Binary64 :=
  let digits : Int := (Nat.toDigits 10 mantissa).length
  if mantissa = 0 then zero
  else if digits + exponent > 320 then ⟨UInt64.ofNat infinityBits⟩
  else if digits + exponent < -340 then zero
  else if 0 ≤ exponent then ofFraction (mantissa * tenTo exponent.toNat) 1
  else ofFraction mantissa (tenTo (-exponent).toNat)

/-- The exponent of a literal from what follows its mark. There has to be a digit. -/
def exponentValue? : List Char → Option Int
  | '+' :: digits => (classValue? 10 Char.isDigit digits).map fun n => (n : Int)
  | '-' :: digits => (classValue? 10 Char.isDigit digits).map fun n => -(n : Int)
  | digits => (classValue? 10 Char.isDigit digits).map fun n => (n : Int)

/-- The value of a floating-point literal: digits, an optional fraction, an optional
exponent. It has none when the exponent mark has no digits behind it. -/
def ofLiteral? (literal : List Char) : Option Binary64 :=
  let whole := literal.takeWhile Char.isDigit
  let rest := literal.dropWhile Char.isDigit
  let part := (rest.drop 1).takeWhile Char.isDigit
  let decimals := if rest.head? = some '.' then part else []
  let rest := if rest.head? = some '.' then (rest.drop 1).dropWhile Char.isDigit else rest
  let mantissa := digitsValue 10 (whole ++ decimals)
  match rest with
  | [] => some (ofDecimal mantissa (-(decimals.length : Int)))
  | _ :: power => (exponentValue? power).map fun n => ofDecimal mantissa (n - decimals.length)

def isNegative (x : Binary64) : Bool := x.bits.toNat ≥ twoTo 63

/-- The eleven bits of the exponent. -/
def exponentField (x : Binary64) : Nat := x.bits.toNat / twoTo 52 % 2048

/-- The fifty-two bits of the fraction. -/
def fractionField (x : Binary64) : Nat := x.bits.toNat % twoTo 52

/-- The absolute value of a finite double as a fraction. -/
def fraction (x : Binary64) : Nat × Nat :=
  let significand := if x.exponentField = 0 then x.fractionField else twoTo 52 + x.fractionField
  let place : Int := (max 1 x.exponentField : Nat) - 1075
  (significand * twoTo place.toNat, twoTo (-place).toNat)

/-- The absolute value of a finite double in millionths, rounded. -/
def millionths (x : Binary64) : Nat := roundHalfEven (x.fraction.1 * tenTo 6) x.fraction.2

/-- A number below a million in exactly six digits. -/
def sixDigits (n : Nat) : String := String.ofList ((toString (n + tenTo 6)).toList.drop 1)

def sign (x : Binary64) : String := if x.isNegative then "-" else ""

/-- The name of an infinity or of a value that is no number. -/
def specialName? (x : Binary64) : Option String :=
  if x.exponentField = 2047 then
    if x.fractionField = 0 then some (x.sign ++ "inf") else some "nan"
  else none

/-- A double with six decimals. The values that are no finite numbers have names, and the
sign of a zero shows. -/
def sixDecimals (x : Binary64) : String :=
  match x.specialName? with
  | some name => name
  | none => x.sign ++ toString (x.millionths / tenTo 6) ++ "." ++ sixDigits (x.millionths % tenTo 6)

end Binary64

end TryGo.Number
