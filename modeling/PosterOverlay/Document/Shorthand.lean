import PosterOverlay.Text.Blank
import PosterOverlay.Text.Digits
import PosterOverlay.Text.Separator
import PosterOverlay.Value

/-!
# Ratings in shorthand

A user may give a rating and its image in one variable, as in `rating1: critic / rt_tomato`. Such
a variable is split into `rating1` and `rating1_image`.
-/

namespace PosterOverlay

namespace Variables

/-- The name of a numbered rating. -/
def ratingName (index : Nat) : String :=
  "rating" ++ Text.decimal index

/-- The name of the image of a numbered rating. -/
def ratingImageName (index : Nat) : String :=
  ratingName index ++ "_image"

/-- The two trimmed parts of a rating in shorthand. -/
def shorthandParts? (text : String) : Option (String × String) :=
  (Text.splitOnce? [' ', '/', ' '] text.toList).map fun (kind, image) =>
    (String.ofList (Text.trimChars kind), String.ofList (Text.trimChars image))

/-- Splits one numbered rating when it is written in shorthand. -/
def expandRating (scope : Variables) (index : Nat) : Variables :=
  match ((Fields.get? scope (ratingName index)).bind Value.string?).bind shorthandParts? with
  | some (kind, image) =>
    Fields.insert (ratingName index) (.string kind)
      (Fields.insert (ratingImageName index) (.string image) scope)
  | none => scope

/-- Splits the ratings `1, …, count` that are written in shorthand, in order. -/
def expandShorthand (scope : Variables) (count : Nat) : Variables :=
  (List.range count).foldl (fun acc index => acc.expandRating (index + 1)) scope

end Variables

end PosterOverlay
