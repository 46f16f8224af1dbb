import PosterOverlay.Fields
import PosterOverlay.Number.Binary64
import PosterOverlay.Number.Reading
import PosterOverlay.Text.Blank

/-!
# Values

The values that overlay files hold. Mappings have text names in order; whole numbers and doubles
stay apart, so that `1` and `1.0` keep their texts.
-/

namespace PosterOverlay

/-- A value of an overlay file. -/
inductive Value where
  /-- The absent value. -/
  | null
  /-- A truth value. -/
  | bool (b : Bool)
  /-- A whole number. -/
  | int (i : Int)
  /-- A double. -/
  | float (x : Float)
  /-- A text, which may hold placeholders. -/
  | string (s : String)
  /-- A list of values. -/
  | sequence (items : List Value)
  /-- Named values in order. -/
  | mapping (fields : List (String × Value))

/-- Values under the names that placeholders refer to. -/
abbrev Variables := Fields Value

namespace Value

instance : Inhabited Value := ⟨null⟩

/-- Whether the value is absent. -/
def isNull : Value → Bool
  | null => true
  | _ => false

/-- The text, when the value is one. -/
def string? : Value → Option String
  | string s => some s
  | _ => none

/-- The truth value, when the value is one. -/
def bool? : Value → Option Bool
  | bool b => some b
  | _ => none

/-- The named values, when the value is a mapping. -/
def mapping? : Value → Option (Fields Value)
  | mapping fields => some fields
  | _ => none

/-- The items, when the value is a sequence. -/
def sequence? : Value → Option (List Value)
  | sequence items => some items
  | _ => none

/-- The value under a name, when the value is a mapping that binds the name. -/
def field? (value : Value) (name : String) : Option Value :=
  value.mapping?.bind (Fields.get? · name)

/-- The mapping under a name, when there is one. -/
def section? (value : Value) (name : String) : Option (Fields Value) :=
  (value.field? name).bind mapping?

/-- The number that the value is, or that its text names once trimmed. -/
def number? : Value → Option Float
  | int i => some (Binary64.ofInt i)
  | float x => some x
  | string s => FloatReading.read? (Text.trimChars s.toList)
  | _ => none

end Value

end PosterOverlay
