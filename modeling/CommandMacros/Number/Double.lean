/-!
Numbers are IEEE doubles. This module takes a double apart into an integer times a power of two and
rounds a fraction of natural numbers to the nearest double, both in exact arithmetic on the bits.
-/

namespace CommandMacros.Number

/-- What the bits of a double stand for: `mantissa * 2 ^ exponent` with a sign when finite. -/
inductive Decoded where
  | finite (negative : Bool) (mantissa : Nat) (exponent : Int)
  | infinite (negative : Bool)
  | undefined

/-- The exponent of the smallest positive double. -/
def minExponent : Int := -1074

/-- The bit in front of the fraction of a normal double, which is not stored; its value is also the
unit of the exponent field. -/
def hiddenBit : Nat := 0x10000000000000

def infinityBits : Nat := 0x7ff * hiddenBit

def signBit : Nat := 0x8000000000000000

def decodeBits (bits : Nat) : Decoded :=
  let negative := bits / signBit % 2 == 1
  let field : Nat := bits / hiddenBit % 0x800
  let fraction := bits % hiddenBit
  if field = 0x7ff then
    if fraction = 0 then .infinite negative else .undefined
  else if field = 0 then
    .finite negative fraction minExponent
  else
    .finite negative (fraction + hiddenBit) ((field : Int) - 1075)

def decode (x : Float) : Decoded :=
  decodeBits x.toBits.toNat

/-- The quotient `num / den` rounded to an integer, a half going to the even neighbour. -/
def roundQuotient (num den : Nat) : Nat :=
  let quotient := num / den
  let twice := 2 * (num % den)
  if den < twice ∨ (twice = den ∧ quotient % 2 = 1) then quotient + 1 else quotient

/-- The fraction `num / den` divided by `2 ^ exponent`, as a fraction of natural numbers. -/
def scaleFraction (num den : Nat) (exponent : Int) : Nat × Nat :=
  if 0 ≤ exponent then
    (num, den * Nat.pow 2 exponent.toNat)
  else
    (num * Nat.pow 2 (-exponent).toNat, den)

/-- The exponent at which `num / den` has 53 binary digits, or the smallest one there is. -/
def roundingExponent (num den : Nat) : Int :=
  let guess : Int := (num.log2 : Int) - den.log2 - 52
  let scaled := scaleFraction num den guess
  let exponent := if scaled.1 < scaled.2 * hiddenBit then guess - 1 else guess
  max exponent minExponent

/-- The bits of the double nearest to `num / den`, where `den` is positive. A mantissa that the
rounding carries to the next power of two moves into the exponent field by itself. -/
def nearestBits (num den : Nat) : Nat :=
  if num = 0 then
    0
  else
    let exponent := roundingExponent num den
    let scaled := scaleFraction num den exponent
    let bits := (exponent - minExponent).toNat * hiddenBit + roundQuotient scaled.1 scaled.2
    min bits infinityBits

/-- The double nearest to `num / den`, with its sign bit set when `negative`. -/
def nearest (negative : Bool) (num den : Nat) : Float :=
  Float.ofBits (UInt64.ofNat (nearestBits num den + if negative then signBit else 0))

/-- One more than the greatest whole number that a signed machine word holds. -/
def wordBound : Nat := 0x8000000000000000

/-- The value of a double that is a whole number below `wordBound` in size. -/
def wholeValue? (x : Float) : Option Int :=
  match decode x with
  | .finite negative mantissa exponent =>
    let whole? :=
      if 0 ≤ exponent then
        some (mantissa * Nat.pow 2 exponent.toNat)
      else if mantissa % Nat.pow 2 (-exponent).toNat = 0 then
        some (mantissa / Nat.pow 2 (-exponent).toNat)
      else
        none
    match whole? with
    | some n => if n < wordBound then some (if negative then -(n : Int) else n) else none
    | none => none
  | _ => none

end CommandMacros.Number
