import PosterOverlay.Template.Condition

/-!
# Templates

A template has default variables, conditionals that compute further variables, and the fields of
the overlay that it produces.
-/

namespace PosterOverlay

/-- A template of overlay files. -/
structure Template where
  /-- Variables for which the caller need not provide; the names may hold placeholders. -/
  defaults : Variables
  /-- Variables that are computed. -/
  conditionals : Conditionals
  /-- The fields of the overlay; names and values may hold placeholders. -/
  overlay : Fields Value

namespace Template

/-- The template that a mapping with its three sections describes. A section that is missing or
no mapping is empty. -/
def ofFields (fields : Fields Value) : Template :=
  let part (name : String) : Fields Value := ((fields.get? name).bind Value.mapping?).getD []
  ⟨part "default", .ofFields (part "conditionals"), part "overlay"⟩

/-- The template that a value describes: a mapping, or a sequence whose first item is one. -/
def ofValue? : Value → Option Template
  | .mapping fields => some (ofFields fields)
  | .sequence (.mapping fields :: _) => some (ofFields fields)
  | _ => none

/-- The template with further conditionals beneath its own, which win where the names agree. -/
def withFallback (template : Template) (fallback : Conditionals) : Template :=
  { template with conditionals := fallback.extend template.conditionals }

end Template

end PosterOverlay
