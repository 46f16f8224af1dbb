import PosterOverlay.Value.Text

/-!
# Template calls

An overlay entry names the templates that it is made from. A call is the name of a template, or a
mapping with the name and variables of its own; several calls are written as a sequence.
-/

namespace PosterOverlay

/-- A call of a template. -/
structure TemplateCall where
  /-- The name of the template. -/
  template : String
  /-- Variables that only this call sees. -/
  overrides : Variables

namespace TemplateCall

/-- The template that a mapping without a name calls. -/
def defaultTemplate : String := "standard"

/-- The call that a value describes, when it is a text or a mapping. -/
def ofValue? : Value → Option TemplateCall
  | .string name => some ⟨name, []⟩
  | .mapping fields =>
    let name := (Fields.get? fields "name").filter fun value => !value.isNull
    some ⟨(name.map Value.text).getD defaultTemplate,
      fields.filter fun entry => entry.1 != "name"⟩
  | _ => none

/-- The calls of a `template` field; items that describe none are skipped. -/
def listOf : Value → List TemplateCall
  | .sequence items => items.filterMap ofValue?
  | value => (ofValue? value).toList

end TemplateCall

end PosterOverlay
