import PosterOverlay.Json.Writer

/-!
# The text of a value, and comparison by text

A value that is spliced into a longer text appears by its text: scalars by what they are, null as
nothing, and sequences and mappings as compact JSON. Checks compare values by that text.
-/

namespace PosterOverlay.Value

/-- The text that stands for the value inside a longer text. -/
def text : Value → String
  | null => ""
  | bool b => if b then "true" else "false"
  | int i => Text.integer i
  | float x => String.ofList (FloatNotation.plain.write x)
  | string s => s
  | container => Json.write container

/-- Whether two values have the same text. -/
def looselySame (a b : Value) : Bool :=
  a.text == b.text

/-- Whether the value has the text of the expected one, or of one of its items when a sequence is
expected. -/
def isOneOf (value expected : Value) : Bool :=
  match expected with
  | sequence items => items.any value.looselySame
  | single => value.looselySame single

/-- Whether the value asks for a yes: the truth value, or its text in any case. -/
def isTrue : Value → Bool
  | bool b => b
  | other => FloatReading.isWord "true" other.text.toList

end PosterOverlay.Value
