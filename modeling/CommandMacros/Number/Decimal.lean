import CommandMacros.Number.Digits
import CommandMacros.Number.Shortest

/-!
Decimal text of numbers. Reading rounds to the nearest double and gives infinity on overflow.
Writing takes the fewest digits that read back, places the point without an exponent, and writes
whole numbers without a point.
-/

namespace CommandMacros.Number

/-- A number as it is written: sign, digits before and after the point, exponent of ten. -/
structure Numeral where
  negative : Bool
  whole : List Char
  fraction : List Char
  exponentNegative : Bool
  exponent : List Char

/-- From here on an exponent takes no further digits. -/
def exponentBound : Nat := 0x10000

/-- The value of an exponent, whose digits count up to the one that takes it to the bound. Only the
value of a numeral with tens of thousands of digits depends on those after it. -/
def exponentValue (digits : List Char) : Nat :=
  digits.foldl (fun n c => if n < exponentBound then 10 * n + digitValue c else n) 0

/-- The exponent of ten of the numeral's last digit. -/
def Numeral.scale (numeral : Numeral) : Int :=
  let written : Int := exponentValue numeral.exponent
  (if numeral.exponentNegative then -written else written) - numeral.fraction.length

/-- The digits of a numeral from the first that is not zero. -/
def Numeral.significant (numeral : Numeral) : List Char :=
  (numeral.whole ++ numeral.fraction).dropWhile (· == '0')

/-- The value of a numeral. Far outside the range of doubles the result is known from the number of
digits alone, so that no large power is computed. -/
def Numeral.value (numeral : Numeral) : Float :=
  let significant := numeral.significant
  let scale := numeral.scale
  let magnitude := significant.length + scale
  if significant.isEmpty ∨ magnitude < -330 then
    nearest numeral.negative 0 1
  else if 310 < magnitude then
    nearest numeral.negative (Nat.pow 2 1024) 1
  else
    let digits := digitsValue significant
    if 0 ≤ scale then
      nearest numeral.negative (digits * Nat.pow 10 scale.toNat) 1
    else
      nearest numeral.negative digits (Nat.pow 10 (-scale).toNat)

/-- `digits * 10 ^ exponent` written out without an exponent. -/
def positional (digits : Nat) (exponent : Int) : List Char :=
  let written := Nat.toDigits 10 digits
  if 0 ≤ exponent then
    written ++ List.replicate exponent.toNat '0'
  else
    let places := (-exponent).toNat
    if places < written.length then
      written.take (written.length - places) ++ '.' :: written.drop (written.length - places)
    else
      '0' :: '.' :: (List.replicate (places - written.length) '0' ++ written)

def signed (negative : Bool) (cs : List Char) : List Char :=
  if negative then '-' :: cs else cs

/-- The decimal text of a double. -/
def text (x : Float) : String :=
  String.ofList <|
    match decode x with
    | .undefined => "NaN".toList
    | .infinite negative => signed negative "inf".toList
    | .finite negative mantissa exponent =>
      if mantissa = 0 then
        signed negative ['0']
      else
        let (digits, scale) := shortest mantissa exponent
        signed negative (positional digits scale)

end CommandMacros.Number
