/-!
# Limits

Placeholders may refer to each other in circles. These bounds make every expansion end, with the
best text reached so far.
-/

namespace PosterOverlay

/-- The bounds of an expansion. -/
structure Limits where
  /-- How often one text is scanned for placeholders. -/
  depth : Nat
  /-- How many passes the variables of a template get, before and after its conditionals. -/
  passes : Nat
  /-- How many numbered rating variables may be written in shorthand. -/
  ratings : Nat
  /-- The length in bytes beyond which no substitution lets a text grow. -/
  length : Nat
  deriving DecidableEq, Repr

namespace Limits

/-- The usual bounds. -/
def standard : Limits := ⟨10, 5, 3, 65536⟩

/-- Tight bounds, under which a bound is soon met. -/
def strict : Limits := ⟨2, 1, 1, 1024⟩

/-- Generous bounds for long chains of templates. -/
def relaxed : Limits := ⟨50, 20, 9, 1048576⟩

end Limits

end PosterOverlay
