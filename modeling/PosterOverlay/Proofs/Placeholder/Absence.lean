import PosterOverlay.Placeholder.Substitution

/-!
# Texts without placeholders

A text in which no `<<` is followed by a `>>` is cut into letters only. No scan changes it, so it
is resolved to itself, whatever the variables and the limits are.
-/

namespace PosterOverlay

/-- What occurs at the end of a text occurs in the text. -/
theorem Text.occursIn_append {part back : List Char} (h : Text.occursIn part back = true)
    (front : List Char) : Text.occursIn part (front ++ back) = true := by
  induction front with
  | nil => exact h
  | cons c front ih => simp [Text.occursIn, ih]

namespace Placeholder

/-- The closing mark is found in every text that opens and closes. -/
theorem occursIn_of_opensAndCloses {text : List Char} (h : opensAndCloses text = true) :
    Text.occursIn ['>', '>'] text = true := by
  fun_induction opensAndCloses text with
  | case1 rest => exact Text.occursIn_append h ['<', '<']
  | case2 c rest _ ih => exact Text.occursIn_append (ih h) [c]
  | case3 => exact absurd h Bool.false_ne_true

/-- A text that opens and closes still does so after one more character. -/
theorem opensAndCloses_cons {c : Char} {rest : List Char} (h : opensAndCloses rest = true) :
    opensAndCloses (c :: rest) = true := by
  unfold opensAndCloses
  split
  · rename_i tail heq
    cases heq
    have hclose := occursIn_of_opensAndCloses h
    simpa [Text.occursIn] using hclose
  · rename_i heq
    cases heq
    exact h
  · rename_i heq
    cases heq

/-- A placeholder that opens a text is closed in it. -/
theorem opensAndCloses_of_opening? {text tail : List Char} {name : String}
    (h : opening? text = some (name, tail)) : opensAndCloses text = true := by
  unfold opening? at h
  split at h
  · rename_i rest
    split at h
    · rename_i _ _ _ closed _ hdrop
      have hclose : Text.occursIn ['>', '>'] (rest.dropWhile isNameChar) = true := by
        rw [hdrop]
        simp [Text.occursIn]
      have hwhole := Text.occursIn_append hclose (rest.takeWhile isNameChar)
      rw [List.takeWhile_append_dropWhile] at hwhole
      simpa only [opensAndCloses] using hwhole
    · simp at h
  · simp at h

/-- No placeholder opens a text that does not open and close. -/
theorem opening?_eq_none {text : List Char} (h : opensAndCloses text = false) :
    opening? text = none := by
  cases hopen : opening? text with
  | none => rfl
  | some found =>
    have hclose := opensAndCloses_of_opening? hopen
    rw [h] at hclose
    exact absurd hclose Bool.false_ne_true

/-- Nothing is left to cut off an empty text. -/
theorem piecesAfter_nil (found : List Piece) : piecesAfter found [] = found.reverse := by
  rw [piecesAfter]
  simp [opening?]

/-- Where no placeholder opens, the first letter is cut off. -/
theorem piecesAfter_cons (found : List Piece) {c : Char} {rest : List Char}
    (h : opening? (c :: rest) = none) :
    piecesAfter found (c :: rest) = piecesAfter (.letter c :: found) rest := by
  rw [piecesAfter]
  split
  · rename_i hopen
    rw [h] at hopen
    cases hopen
  · rfl

/-- A text that does not open and close is cut into its letters. -/
theorem piecesAfter_of_not_opensAndCloses (found : List Piece) {text : List Char}
    (h : opensAndCloses text = false) :
    piecesAfter found text = found.reverse ++ text.map Piece.letter := by
  induction text generalizing found with
  | nil => simp [piecesAfter_nil]
  | cons c rest ih =>
    have hrest : opensAndCloses rest = false := by
      rw [← Bool.not_eq_true]
      intro hclose
      rw [opensAndCloses_cons hclose] at h
      exact absurd h.symm Bool.false_ne_true
    rw [piecesAfter_cons found (opening?_eq_none h), ih _ hrest]
    simp

/-- Taking letters over puts them at the end of the new text. -/
theorem foldl_take_letters (texts : Fields String) (scan : Scan) (letters : List Char) :
    (letters.map Piece.letter).foldl (Scan.take texts) scan =
      { scan with done := letters.reverse ++ scan.done } := by
  induction letters generalizing scan with
  | nil => rfl
  | cons c letters ih =>
    rw [List.map_cons, List.foldl_cons, ih]
    simp [Scan.take]

/-- Nothing is spliced into a text without placeholders. -/
theorem splice_of_not_occurs (scope : Variables) (room : Nat) {text : String}
    (h : occurs text = false) : splice scope room text = text := by
  have hpieces : pieces text = text.toList.map Piece.letter :=
    piecesAfter_of_not_opensAndCloses [] h
  simp [splice, hpieces, foldl_take_letters]

/-- One scan leaves a text without placeholders as it is. -/
theorem scan_of_not_occurs (scope : Variables) (length : Nat) {text : String}
    (h : occurs text = false) : scan scope length text = .string text := by
  have hwhole : whole? text = none := by simp [whole?, opening?_eq_none h]
  simp [scan, hwhole, splice_of_not_occurs scope _ h]

end Placeholder

namespace Limits

/-- A text without placeholders is resolved to itself. -/
theorem resolveText_of_not_occurs (limits : Limits) (scope : Variables) {text : String}
    (h : Placeholder.occurs text = false) : limits.resolveText scope text = .string text := by
  unfold resolveText
  cases limits.depth with
  | zero => rfl
  | succ depth => simp [Placeholder.scanUpTo, Placeholder.scan_of_not_occurs scope _ h]

/-- A name without placeholders is resolved to itself. -/
theorem resolveName_of_not_occurs (limits : Limits) (scope : Variables) {name : String}
    (h : Placeholder.occurs name = false) : limits.resolveName scope name = name := by
  rw [resolveName, resolveText_of_not_occurs limits scope h]
  rfl

end Limits

end PosterOverlay
