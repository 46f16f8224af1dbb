import PosterOverlay.Number.Shortest
import PosterOverlay.Text.Digits

/-!
# The text of a double

Finite doubles are written with their shortest digits: positionally while the decimal exponent
lies between −5 and 15, with a point and a zero when the number is whole, and otherwise in
scientific form. Two writers share this rule and differ in the sign of a positive exponent and in
what stands for the numbers that are not finite.
-/

namespace PosterOverlay

/-- What a writer of doubles decides for itself. -/
structure FloatNotation where
  /-- What precedes a positive exponent. -/
  plus : String
  /-- The text of a double that is not a number. -/
  notANumber : String
  /-- The text of positive infinity. -/
  infinity : String
  /-- The text of negative infinity. -/
  minusInfinity : String

namespace FloatNotation

/-- Doubles in running text and in YAML. -/
def plain : FloatNotation := ⟨"", ".nan", ".inf", "-.inf"⟩

/-- Doubles in JSON, which has no text for those that are not finite. -/
def json : FloatNotation := ⟨"+", "null", "null", "null"⟩

/-- As many zeros as asked for. -/
def zeros (count : Nat) : List Char :=
  List.replicate count '0'

/-- The text of a positive decimal. `point` counts the digits before the decimal point. -/
def ofDecimal (style : FloatNotation) (d : Decimal) : List Char :=
  let digits := Text.decimalDigits d.digits
  let point : Int := digits.length + d.exponent
  if 0 ≤ d.exponent ∧ point ≤ 16 then digits ++ zeros d.exponent.toNat ++ ['.', '0']
  else if 0 < point ∧ point ≤ 16 then
    digits.take point.toNat ++ '.' :: digits.drop point.toNat
  else if -5 < point ∧ point ≤ 0 then '0' :: '.' :: zeros (-point).toNat ++ digits
  else
    let mantissa := match digits with
      | first :: second :: rest => first :: '.' :: second :: rest
      | short => short
    let sign := if 0 < point then style.plus.toList else []
    mantissa ++ 'e' :: sign ++ Text.integerChars (point - 1)

/-- The text of a double. -/
def write (style : FloatNotation) (x : Float) : List Char :=
  if x.isNaN then style.notANumber.toList
  else if x.isInf then
    (if Binary64.isNegative x then style.minusInfinity else style.infinity).toList
  else
    let sign := if Binary64.isNegative x then ['-'] else []
    if x == 0 then sign ++ ['0', '.', '0']
    else sign ++ ofDecimal style (Decimal.shortest x)

end FloatNotation

end PosterOverlay
