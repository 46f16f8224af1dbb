import PosterOverlay.Number.Reading
import PosterOverlay.Value

/-!
# Numbers in JSON

A number has a whole part without needless zeros, and perhaps a fraction and an exponent. Without
those two it is a whole number as long as it fits in 64 bits. Every other number is a double: as
many digits as fit in 64 bits are taken as one whole number, which is then multiplied or divided
by a power of ten. The result may miss the nearest double by a little.
-/

namespace PosterOverlay.Json

/-- The digits at the front of a text, and what follows them. -/
def spanDigits (text : List Char) : List Char × List Char :=
  text.span Char.isDigit

/-- A number as it is written. -/
structure Numeral where
  /-- Whether a minus sign precedes it. -/
  negative : Bool
  /-- The digits before the point. -/
  whole : List Char
  /-- The digits after the point; none when there is no point. -/
  fraction : List Char
  /-- The exponent, when there is one. -/
  exponent? : Option Int

namespace Numeral

/-- Whether the digits may stand before the point: there is one, and a zero stands alone. -/
def isWholePart : List Char → Bool
  | [] => false
  | '0' :: rest => rest.isEmpty
  | _ => true

/-- The fraction at the front of a text; none when a point is followed by no digit. -/
def fractionAt? : List Char → Option (List Char × List Char)
  | '.' :: rest =>
    let (digits, tail) := spanDigits rest
    if digits.isEmpty then none else some (digits, tail)
  | text => some ([], text)

/-- The exponent at the front of a text; none when its letter is followed by no digit. -/
def exponentAt? : List Char → Option (Option Int × List Char)
  | [] => some (none, [])
  | c :: rest =>
    if c == 'e' || c == 'E' then
      let (negative, body) := FloatReading.sign rest
      let (digits, tail) := spanDigits body
      let size : Int := Text.ofDecimalDigits digits
      if digits.isEmpty then none else some (some (if negative then -size else size), tail)
    else some (none, c :: rest)

/-- The numeral at the front of a text, and what follows it. -/
def at? (text : List Char) : Option (Numeral × List Char) := do
  let (negative, body) := match text with
    | '-' :: rest => (true, rest)
    | text => (false, text)
  let (whole, rest) := spanDigits body
  guard (isWholePart whole)
  let (fraction, rest) ← fractionAt? rest
  let (exponent?, rest) ← exponentAt? rest
  return (⟨negative, whole, fraction, exponent?⟩, rest)

/-- A whole number below `2 ^ 64` with a power of ten. -/
structure Scaled where
  /-- The whole number. -/
  digits : Nat
  /-- The power of ten. -/
  exponent : Int

namespace Scaled

/-- The number with one more digit, when it still fits in 64 bits. -/
def push? (digits : Nat) (c : Char) : Option Nat :=
  let next := 10 * digits + (Text.digitValue? c).getD 0
  if next < Nat.pow 2 64 then some next else none

/-- Appends the digits before a point. From the first digit that does not fit, each one counts as
a power of ten. -/
def appendWhole (number : Scaled) : List Char → Scaled
  | [] => number
  | c :: rest =>
    match push? number.digits c with
    | some digits => appendWhole { number with digits } rest
    | none => { number with exponent := number.exponent + (rest.length + 1) }

/-- Appends the digits after a point, up to the first one that does not fit. -/
def appendFraction (number : Scaled) : List Char → Scaled
  | [] => number
  | c :: rest =>
    match push? number.digits c with
    | some digits => appendFraction ⟨digits, number.exponent - 1⟩ rest
    | none => number

/-- A double times a power of ten; none when it is out of range. Powers below the range of
doubles are applied in several steps. -/
def scale? (x : Float) (exponent : Int) : Option Float :=
  let power (exponent : Nat) := Binary64.ofDecimal false 1 exponent
  if 308 < exponent then if x == 0 then some x else none
  else if 0 ≤ exponent then (some (x * power exponent.toNat)).filter Float.isFinite
  else if -308 ≤ exponent then some (x / power (-exponent).toNat)
  else if x == 0 then some x
  else scale? (x / power 308) (exponent + 308)
termination_by (-exponent).toNat

end Scaled

/-- The double that a numeral names; none when it is out of range. -/
def float? (numeral : Numeral) : Option Float :=
  let whole := Scaled.appendWhole ⟨0, 0⟩ numeral.whole
  let scaled := whole.appendFraction numeral.fraction
  (Scaled.scale? (Binary64.ofInt scaled.digits)
    (scaled.exponent + numeral.exponent?.getD 0)).map fun x =>
      if numeral.negative then -x else x

/-- The whole number that a numeral names, when it is one that fits in 64 bits. Minus zero is
none. -/
def int? (numeral : Numeral) : Option Int :=
  let size := Text.ofDecimalDigits numeral.whole
  if !numeral.fraction.isEmpty || numeral.exponent?.isSome then none
  else if numeral.negative then
    if 0 < size ∧ size ≤ Nat.pow 2 63 then some (-size) else none
  else if size < Nat.pow 2 64 then some size else none

/-- The value that a numeral names. -/
def value? (numeral : Numeral) : Option Value :=
  match numeral.int? with
  | some i => some (.int i)
  | none => numeral.float?.map .float

end Numeral

end PosterOverlay.Json
