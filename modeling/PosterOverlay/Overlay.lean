import PosterOverlay.Text.Separator
import PosterOverlay.Value.Text

/-!
# Overlays

An overlay is a flat list of fields for the compositor. Two further fields say where it came
from: the name of its entry, and either the templates that it was made from or the fact that it
was written out directly.
-/

namespace PosterOverlay

/-- A finished overlay. -/
structure Overlay where
  /-- Its fields, with those that tell its origin. -/
  fields : Fields Value

namespace Overlay

/-- The field that holds the name of the entry. -/
def originField : String := "_original_name"

/-- The field that holds the names of the templates. -/
def templateField : String := "_template"

/-- The field that marks an overlay written out directly. -/
def directField : String := "_direct"

/-- What stands between the names of templates. -/
def templateSeparator : String := ", "

/-- The overlay of an entry made by calling templates. -/
def ofTemplates (name : String) (fields : Fields Value) (templates : List String) : Overlay :=
  ⟨((fields.insert originField (.string name)).insert templateField
    (.string (Text.joined templateSeparator templates)))⟩

/-- The overlay of an entry written out directly. -/
def direct (name : String) (fields : Fields Value) : Overlay :=
  ⟨(fields.insert originField (.string name)).insert directField (.bool true)⟩

/-- The value of a field. -/
def get? (overlay : Overlay) (name : String) : Option Value :=
  overlay.fields.get? name

/-- The name of the entry, when it is known as a text. -/
def originalName? (overlay : Overlay) : Option String :=
  (overlay.get? originField).bind Value.string?

/-- Whether the overlay was written out directly. -/
def isDirect (overlay : Overlay) : Bool :=
  ((overlay.get? directField).bind Value.bool?).getD false

/-- The templates that the overlay was made from, in the order of the calls. -/
def templateNames (overlay : Overlay) : List String :=
  match (overlay.get? templateField).bind Value.string? with
  | some text => (Text.pieces templateSeparator text).filter (· != "")
  | none => []

/-- The group of the overlay; a null or empty one is none. -/
def group? (overlay : Overlay) : Option String :=
  (((overlay.get? "group").filter fun value => !value.isNull).map Value.text).filter (· != "")

/-- The weight within the group, zero when there is no number to read. -/
def weight (overlay : Overlay) : Float :=
  ((overlay.get? "weight").bind Value.number?).getD 0

/-- The best label of the overlay: the first text that is not empty of its entry's name, its
display name and its name. -/
def displayName (overlay : Overlay) : String :=
  (([originField, "display_name", "name"].filterMap overlay.get?).map Value.text
    |>.find? (· != "")).getD ""

end Overlay

end PosterOverlay
