import PosterOverlay.Number.Reading
import PosterOverlay.Yaml.Term

/-!
# What scalars mean

A plain scalar may be null, a truth value, a whole number or a double; all other scalars are
texts. Digits after a leading zero are a text, and a whole number that needs more than 64 bits is
refused as long as it fits in 128. A standard tag fixes the kind of a scalar.
-/

namespace PosterOverlay.Yaml.Schema

/-- Splits off a text at the front, when it is there. -/
def after? (front : String) (text : List Char) : Option (List Char) :=
  front.toList.isPrefixOf? text

/-- Whether the text starts with a sign. -/
def hasSign (text : List Char) : Bool :=
  text.head? == some '+' || text.head? == some '-'

/-- Whether the text is one of the words for null. -/
def isNullWord (text : String) : Bool :=
  ["~", "null", "Null", "NULL"].contains text

/-- The truth value that a word names. -/
def bool? (text : String) : Option Bool :=
  if ["true", "True", "TRUE"].contains text then some true
  else if ["false", "False", "FALSE"].contains text then some false
  else none

/-- Digits with a leading zero, which are no number. -/
def isZeroPadded (text : List Char) : Bool :=
  match if hasSign text then text.drop 1 else text with
  | '0' :: c :: rest => (c :: rest).all Char.isDigit
  | _ => false

/-- The bases with their signs. -/
def bases : List (String × Nat) := [("0x", 16), ("0o", 8), ("0b", 2)]

/-- The number that digits in a base other than ten name, when it stays below the bound. -/
def inBase? (bound : Nat) (text : List Char) : Option Nat :=
  bases.findSome? fun (sign, base) =>
    ((after? sign text).bind (Text.ofDigits? base)).filter (· < bound)

/-- The decimal number that the text names, when it stays below the bound. -/
def inDecimal? (bound : Nat) (text : List Char) : Option Nat :=
  (Text.ofDigits? 10 text).filter (· < bound)

/-- The natural number below the bound that the text names, perhaps after a plus sign. -/
def natural? (bound : Nat) (text : List Char) : Option Nat :=
  let body := (after? "+" text).getD text
  (inBase? bound body).or (if isZeroPadded text then none else inDecimal? bound body)

/-- The size of the number that the text names after a minus sign, when it is at most the
bound. -/
def negative? (bound : Nat) (text : List Char) : Option Nat :=
  (after? "-" text).bind fun body =>
    (inBase? (bound + 1) body).or (if isZeroPadded text then none else inDecimal? (bound + 1) body)

/-- The result of reading a whole number. -/
inductive IntReading where
  /-- The text names no whole number. -/
  | absent
  /-- The text names a whole number that is refused. -/
  | refused
  /-- The text names this whole number. -/
  | found (i : Int)

/-- Reads a whole number. -/
def int (text : List Char) : IntReading :=
  match natural? (Nat.pow 2 64) text, negative? (Nat.pow 2 63) text with
  | some n, _ => .found n
  | none, some n => .found (-n)
  | none, none =>
    if (natural? (Nat.pow 2 128) text).isSome || (negative? (Nat.pow 2 127) text).isSome then
      .refused
    else .absent

/-- The double that the text names: a decimal numeral within the range, or infinity or not a
number with a point before it. -/
def float? (text : String) : Option Float :=
  let chars := text.toList
  let body := (after? "+" chars).getD chars
  if body.length < chars.length && hasSign body then none
  else if [".inf", ".Inf", ".INF"].contains (String.ofList body) then
    some (Binary64.ofBits false Binary64.infinityBits)
  else if ["-.inf", "-.Inf", "-.INF"].contains text then
    some (Binary64.ofBits true Binary64.infinityBits)
  else if [".nan", ".NaN", ".NAN"].contains text then some FloatReading.notANumber
  else (FloatReading.read? body).filter Float.isFinite

/-- The term of a plain scalar. -/
def plain? (text : String) : Option Term :=
  if text = "" || isNullWord text then some .null
  else
    match bool? text with
    | some b => some (.bool b)
    | none =>
      match int text.toList with
      | .found i => some (.int i)
      | .refused => none
      | .absent =>
        let number? := if isZeroPadded text.toList then none else float? text
        some ((number?.map Term.float).getD (.string text))

/-- The tags that fix the kind of a scalar, after their common start. -/
def standardTag? (tag : String) : Option String :=
  (after? "tag:yaml.org,2002:" tag.toList).map String.ofList

/-- Whether a tag is one of the document's own. -/
def isOwnTag (tag : String) : Bool :=
  tag.toList.head? == some '!'

/-- The name of a tag of the document's own, without the exclamation marks at its front. -/
def ownTagName (tag : String) : String :=
  let name := tag.toList.drop 1
  if name.isEmpty then tag
  else String.ofList (if name.head? == some '!' && 1 < name.length then name.drop 1 else name)

/-- The term of a scalar with the tag that counts for it. -/
def scalar? (tag? : Option String) (text : String) (isPlain : Bool) : Option Term :=
  match tag? with
  | none => if isPlain then plain? text else some (.string text)
  | some tag =>
    match standardTag? tag with
    | some "bool" => (bool? text).map .bool
    | some "int" =>
      match int text.toList with
      | .found i => some (.int i)
      | _ => none
    | some "float" => (float? text).map .float
    | some "null" => if isNullWord text then some .null else none
    | _ => some (.string text)

end PosterOverlay.Yaml.Schema
