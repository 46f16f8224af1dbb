/-!
# Doubles as exact numbers

A finite double is a sign and a product `significand · 2 ^ exponent` of integers. This module
takes a double apart, and rounds an exact positive quotient or decimal to the nearest double, a
tie going to the even significand.
-/

namespace PosterOverlay

/-- The magnitude of a finite double: `significand · 2 ^ exponent`. -/
structure Binary64 where
  /-- The integer factor, below `2 ^ 53`. -/
  significand : Nat
  /-- The power of two. -/
  exponent : Int
  /-- Whether the next smaller double is only half as far away as the next larger one. -/
  narrowBelow : Bool

namespace Binary64

/-- The magnitude of a finite double. -/
def ofFloat (x : Float) : Binary64 :=
  let bits := x.toBits.toNat
  let field : Nat := bits / Nat.pow 2 52 % Nat.pow 2 11
  let fraction : Nat := bits % Nat.pow 2 52
  if field = 0 then ⟨fraction, -1074, false⟩
  else ⟨fraction + Nat.pow 2 52, (field : Int) - 1075, fraction = 0 ∧ 1 < field⟩

/-- Whether a double carries a minus sign. -/
def isNegative (x : Float) : Bool :=
  Nat.pow 2 63 ≤ x.toBits.toNat

/-- The bits of positive infinity, the least number above those of all finite magnitudes. -/
def infinityBits : Nat := 0x7FF0000000000000

/-- Rounds a quotient of naturals to the nearest natural, a tie going to the even one. -/
def roundQuotient (num den : Nat) : Nat :=
  let floor := num / den
  let rest := 2 * (num % den)
  if rest < den then floor
  else if den < rest then floor + 1
  else floor + floor % 2

/-- Rounds `num / den` to the unit `2 ^ exponent`. -/
def roundToUnit (num den : Nat) (exponent : Int) : Nat :=
  if 0 ≤ exponent then roundQuotient num (den * Nat.pow 2 exponent.toNat)
  else roundQuotient (num * Nat.pow 2 (-exponent).toNat) den

/-- The bits of the double nearest to `num / den`, for a positive denominator. The unit is the
largest power of two that leaves 53 bits, and never below the least positive double. -/
def bitsOfQuotient (num den : Nat) : Nat :=
  if num = 0 then 0
  else
    let size : Int := (num.log2 : Int) - den.log2
    let fits (exponent : Int) : Bool :=
      if 0 ≤ exponent then num < Nat.pow 2 53 * (den * Nat.pow 2 exponent.toNat)
      else num * Nat.pow 2 (-exponent).toNat < Nat.pow 2 53 * den
    let low := max (size - 53) (-1074)
    let exponent := if fits low then low else low + 1
    min ((exponent + 1074).toNat * Nat.pow 2 52 + roundToUnit num den exponent) infinityBits

/-- The double with these magnitude bits and this sign. -/
def ofBits (negative : Bool) (magnitude : Nat) : Float :=
  Float.ofBits (UInt64.ofNat (if negative then magnitude + Nat.pow 2 63 else magnitude))

/-- The double nearest to `± significand · 10 ^ exponent`. Exponents far outside the range of
doubles are settled without computing the power. -/
def ofDecimal (negative : Bool) (significand : Nat) (exponent : Int) : Float :=
  let size : Int := (significand.log2 : Int) * 30103 / 100000 + exponent
  if significand = 0 || size < -330 then ofBits negative 0
  else if 310 < size then ofBits negative infinityBits
  else if 0 ≤ exponent then
    ofBits negative (bitsOfQuotient (significand * Nat.pow 10 exponent.toNat) 1)
  else ofBits negative (bitsOfQuotient significand (Nat.pow 10 (-exponent).toNat))

/-- The double nearest to an integer. -/
def ofInt (i : Int) : Float :=
  ofDecimal (i < 0) i.natAbs 0

end Binary64

end PosterOverlay
