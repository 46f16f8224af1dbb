import PosterOverlay.Number.Binary64
import PosterOverlay.Text.Digits

/-!
# Reading doubles

The common grammar of decimal numerals: an optional sign, digits with an optional point among or
beside them, and an optional exponent; or one of the words for infinity and not-a-number in any
case. The result is the nearest double.
-/

namespace PosterOverlay.FloatReading

/-- Whether a text is a given word up to the case of ASCII letters. -/
def isWord (word : String) (text : List Char) : Bool :=
  text.map Char.toLower == word.toList

/-- Splits off an optional sign and tells whether it was a minus. -/
def sign : List Char → Bool × List Char
  | '-' :: rest => (true, rest)
  | '+' :: rest => (false, rest)
  | text => (false, text)

/-- The exponent at the end of a numeral, zero when nothing is left. -/
def exponent? : List Char → Option Int
  | [] => some 0
  | c :: rest =>
    if c == 'e' || c == 'E' then
      let (negative, digits) := sign rest
      if digits.isEmpty || !digits.all Char.isDigit then none
      else
        let size : Int := Text.ofDecimalDigits digits
        some (if negative then -size else size)
    else none

/-- The double named by an unsigned decimal numeral. -/
def numeral? (negative : Bool) (text : List Char) : Option Float :=
  let (whole, rest) := text.span Char.isDigit
  let (fraction, tail) := match rest with
    | '.' :: rest => rest.span Char.isDigit
    | rest => ([], rest)
  if whole.isEmpty && fraction.isEmpty then none
  else
    (exponent? tail).map fun exponent =>
      Binary64.ofDecimal negative (Text.ofDecimalDigits (whole ++ fraction))
        (exponent - fraction.length)

/-- Not a number, as the result of reading it. -/
def notANumber : Float := Float.ofBits 0x7FF8000000000000

/-- The double that a text names in the common grammar. -/
def read? (text : List Char) : Option Float :=
  let (negative, body) := sign text
  if isWord "inf" body || isWord "infinity" body then
    some (Binary64.ofBits negative Binary64.infinityBits)
  else if isWord "nan" body then some notANumber
  else numeral? negative body

end PosterOverlay.FloatReading
