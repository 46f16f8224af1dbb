import PosterOverlay.Overlay

/-!
# Choosing overlays for a preview

On a single poster only one overlay of each group can be shown. The overlays without a group are
all kept, in order; after them comes one overlay of each group, in the order in which the groups
first appear. A rating group shows its first fresh overlay, any other group its first overlay of
the highest weight.
-/

namespace PosterOverlay

/-- Whether the group shows ratings. -/
def isRatingGroup (group : String) : Bool :=
  Text.opensWith group "rating" && Text.closesWith group "_group"

/-- Whether the overlay is labelled as fresh. -/
def Overlay.isFresh (overlay : Overlay) : Bool :=
  Text.contains overlay.displayName "Fresh"

/-- Whether a later overlay of the group takes the place of the one shown so far. -/
def Overlay.replaces (group : String) (later shown : Overlay) : Bool :=
  if isRatingGroup group then later.isFresh && !shown.isFresh
  else shown.weight < later.weight

/-- The overlays chosen so far. -/
structure Preview where
  /-- The overlays without a group. -/
  ungrouped : List Overlay
  /-- The overlay shown for each group. -/
  shown : Fields Overlay

namespace Preview

/-- Nothing chosen. -/
def empty : Preview := ⟨[], []⟩

/-- Considers one more overlay. -/
def add (preview : Preview) (overlay : Overlay) : Preview :=
  match overlay.group? with
  | none => { preview with ungrouped := preview.ungrouped ++ [overlay] }
  | some group =>
    match preview.shown.get? group with
    | none => { preview with shown := preview.shown.insert group overlay }
    | some held =>
      if overlay.replaces group held then
        { preview with shown := preview.shown.insert group overlay }
      else preview

/-- The chosen overlays in the order of the preview. -/
def toList (preview : Preview) : List Overlay :=
  preview.ungrouped ++ preview.shown.map Prod.snd

/-- The overlays of a list that a preview shows. -/
def select (overlays : List Overlay) : List Overlay :=
  (overlays.foldl add empty).toList

end Preview

end PosterOverlay
