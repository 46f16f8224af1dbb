import PosterOverlay.Number.Binary64

/-!
# Shortest decimals

Among the decimals that round to a given double, the ones with the fewest digits are preferred;
of these the one nearest to the double is taken, and of two equally near ones that with the even
last digit. The search goes down the decimal grids `10 ^ p`, from coarse to fine, and tests the
two neighbours of the double on each grid in exact arithmetic.
-/

namespace PosterOverlay

/-- A positive decimal `digits · 10 ^ exponent`. -/
structure Decimal where
  /-- The digits, read as one number. -/
  digits : Nat
  /-- The power of ten of the last digit. -/
  exponent : Int

namespace Decimal

/-- Drops the zeros at the end of the digits, at most `count` of them. -/
def dropZeros : Nat → Decimal → Decimal
  | 0, d => d
  | count + 1, d =>
    if d.digits ≠ 0 ∧ d.digits % 10 = 0 then dropZeros count ⟨d.digits / 10, d.exponent + 1⟩
    else d

/-- The reals that round to a double, as quarters of its unit over a common scale: all numbers
`num / den` from `low / den` to `high / den`, the ends included when `closed`. -/
structure Interval where
  /-- Four times the double, scaled. -/
  num : Nat
  /-- The lower end, scaled. -/
  low : Nat
  /-- The upper end, scaled. -/
  high : Nat
  /-- The scale. -/
  den : Nat
  /-- Whether the ends belong to the interval. -/
  closed : Bool

/-- The interval of a positive double. Its ends round to the double just when the significand is
even. -/
def Interval.around (b : Binary64) : Interval :=
  let middle := 4 * b.significand
  let below := if b.narrowBelow then middle - 1 else middle - 2
  let quarter := b.exponent - 2
  let scale := if 0 ≤ quarter then Nat.pow 2 quarter.toNat else 1
  let den := if 0 ≤ quarter then 1 else Nat.pow 2 (-quarter).toNat
  ⟨middle * scale, below * scale, (middle + 2) * scale, den, b.significand % 2 = 0⟩

/-- The interval measured in units of `10 ^ exponent`. -/
def Interval.onGrid (i : Interval) (exponent : Int) : Interval :=
  if 0 ≤ exponent then { i with den := i.den * Nat.pow 10 exponent.toNat }
  else
    let scale := Nat.pow 10 (-exponent).toNat
    { i with num := i.num * scale, low := i.low * scale, high := i.high * scale }

/-- Whether the interval holds the natural number. -/
def Interval.holds (i : Interval) (n : Nat) : Bool :=
  let scaled := n * i.den
  if i.closed then i.low ≤ scaled && scaled ≤ i.high else i.low < scaled && scaled < i.high

/-- The natural number nearest to the middle of the interval among the middle's two neighbours,
when one of them lies in the interval. -/
def Interval.nearest? (i : Interval) : Option Nat :=
  let floor := i.num / i.den
  let chosen := Binary64.roundQuotient i.num i.den
  let other := if chosen = floor then floor + 1 else floor
  if i.holds chosen then some chosen
  else if i.holds other then some other
  else none

/-- Searches at most `count` grids, each ten times finer than the one before. -/
def search (i : Interval) : Nat → Int → Option Decimal
  | 0, _ => none
  | count + 1, exponent =>
    match (i.onGrid exponent).nearest? with
    | some digits => some (dropZeros 20 ⟨digits, exponent⟩)
    | none => search i count (exponent - 1)

/-- The shortest decimal that rounds to a positive double. -/
def shortest (x : Float) : Decimal :=
  let b := Binary64.ofFloat x
  let top : Int := ((b.significand.log2 : Int) + b.exponent) * 30103 / 100000 + 2
  (search (.around b) 25 top).getD ⟨0, 0⟩

end Decimal

end PosterOverlay
