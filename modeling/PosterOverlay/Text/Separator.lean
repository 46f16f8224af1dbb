/-!
# Searching, splitting and joining

Texts are cut at a separator that is itself a text: once, at its first occurrence, or at every
occurrence from left to right. Joining puts the separator between the pieces.
-/

namespace PosterOverlay.Text

/-- The part of the text after an opening separator, when the text opens with one. -/
def after? (separator text : List Char) : Option (List Char) :=
  separator.isPrefixOf? text

/-- The part of the text before a closing separator, when the text closes with one. -/
def before? (separator text : List Char) : Option (List Char) :=
  (separator.reverse.isPrefixOf? text.reverse).map List.reverse

/-- Whether `part` occurs somewhere in the text. -/
def occursIn (part : List Char) : List Char → Bool
  | [] => part.isEmpty
  | c :: rest => part.isPrefixOf (c :: rest) || occursIn part rest

/-- The parts before and after the first occurrence of the separator. -/
def splitOnce? (separator : List Char) : List Char → Option (List Char × List Char)
  | [] => none
  | c :: rest =>
    match after? separator (c :: rest) with
    | some tail => some ([], tail)
    | none => (splitOnce? separator rest).map fun (front, tail) => (c :: front, tail)

theorem after?_nil (text : List Char) : after? [] text = some text := by
  cases text <;> rfl

theorem after?_cons_cons (d c : Char) (separator text : List Char) :
    after? (d :: separator) (c :: text) = if d == c then after? separator text else none := rfl

theorem after?_length {separator text tail : List Char} (h : after? separator text = some tail) :
    tail.length + separator.length = text.length := by
  induction separator generalizing text with
  | nil =>
    rw [after?_nil, Option.some.injEq] at h
    simp [h]
  | cons d separator ih =>
    cases text with
    | nil => cases h
    | cons c text =>
      rw [after?_cons_cons] at h
      split at h
      · have := ih h
        simp only [List.length_cons]
        omega
      · simp at h

theorem splitOnce?_length {separator text front tail : List Char}
    (h : splitOnce? separator text = some (front, tail)) :
    front.length + separator.length + tail.length = text.length := by
  induction text generalizing front with
  | nil => simp [splitOnce?] at h
  | cons c rest ih =>
    simp only [splitOnce?] at h
    split at h
    · rename_i found hfound
      have := after?_length hfound
      simp only [Option.some.injEq, Prod.mk.injEq] at h
      obtain ⟨rfl, rfl⟩ := h
      simp only [List.length_nil]
      omega
    · cases hrest : splitOnce? separator rest with
      | none => simp [hrest] at h
      | some parts =>
        obtain ⟨front', tail'⟩ := parts
        simp only [hrest, Option.map_some, Option.some.injEq, Prod.mk.injEq] at h
        obtain ⟨rfl, rfl⟩ := h
        have := ih hrest
        simp only [List.length_cons]
        omega

/-- The pieces between the occurrences of the separator, which are found from left to right and
do not overlap. An empty separator never cuts. -/
def splitAll (separator text : List Char) : List (List Char) :=
  if _hsep : separator = [] then [text]
  else
    match _h : splitOnce? separator text with
    | none => [text]
    | some (front, tail) => front :: splitAll separator tail
termination_by text.length
decreasing_by
  have := splitOnce?_length _h
  have := List.length_pos_iff.mpr _hsep
  omega

/-- The pieces of a text between the occurrences of a separator. -/
def pieces (separator text : String) : List String :=
  (splitAll separator.toList text.toList).map String.ofList

/-- The texts one after another with the separator between them. -/
def joined (separator : String) : List String → String
  | [] => ""
  | [text] => text
  | text :: rest => text ++ separator ++ joined separator rest

/-- Whether `part` occurs somewhere in the text. -/
def contains (text part : String) : Bool :=
  occursIn part.toList text.toList

/-- The text before the closing part, when the text closes with it. -/
def stripEnd? (text ending : String) : Option String :=
  (before? ending.toList text.toList).map String.ofList

/-- Whether the text opens with `opening`. -/
def opensWith (text opening : String) : Bool :=
  opening.toList.isPrefixOf text.toList

/-- Whether the text closes with `ending`. -/
def closesWith (text ending : String) : Bool :=
  (before? ending.toList text.toList).isSome

end PosterOverlay.Text
