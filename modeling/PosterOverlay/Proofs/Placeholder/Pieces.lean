import PosterOverlay.Proofs.Placeholder.Absence

/-!
# The pieces of a text

Cutting a text into pieces loses nothing: written one after another, the pieces are the text. A
piece is a placeholder exactly where a name without angle brackets stands between the marks.
-/

namespace PosterOverlay

/-- The characters that a piece takes up in its text. -/
def Piece.chars : Piece → List Char
  | letter c => [c]
  | hole name => (Placeholder.written name).toList

namespace Placeholder

/-- The characters of a placeholder. -/
theorem toList_written (name : String) :
    (written name).toList = '<' :: '<' :: (name.toList ++ ['>', '>']) := by
  simp [written]

/-- What is taken of a text and what is left once its plain front ends in an angle bracket. -/
theorem span_isNameChar {name : List Char} (hname : ∀ c ∈ name, isNameChar c = true) {c : Char}
    (hc : isNameChar c = false) (rest : List Char) :
    (name ++ c :: rest).takeWhile isNameChar = name ∧
      (name ++ c :: rest).dropWhile isNameChar = c :: rest := by
  rw [List.takeWhile_append_of_pos hname, List.dropWhile_append_of_pos hname]
  simp [hc]

/-- A placeholder opens a text exactly when the text begins with its written form, and its name is
one that a placeholder may have. -/
theorem opening?_eq_some_iff {text tail : List Char} {name : String} :
    opening? text = some (name, tail) ↔
      name ≠ "" ∧ (∀ c ∈ name.toList, isNameChar c = true) ∧
        text = (written name).toList ++ tail := by
  constructor
  · intro h
    unfold opening? at h
    split at h
    · rename_i rest
      split at h
      · rename_i first inner closed htake hdrop
        simp only [Option.some.injEq, Prod.mk.injEq] at h
        obtain ⟨rfl, rfl⟩ := h
        have hwhole := List.takeWhile_append_dropWhile (p := isNameChar) (l := rest)
        have hplain := List.all_eq_true.mp (List.all_takeWhile (p := isNameChar) (l := rest))
        rw [htake, hdrop] at hwhole
        rw [htake] at hplain
        refine ⟨by simp, ?_, ?_⟩
        · rwa [String.toList_ofList]
        · rw [toList_written, String.toList_ofList, ← hwhole]
          simp
      · cases h
    · cases h
  · rintro ⟨hne, hname, rfl⟩
    have hcons : name.toList ≠ [] := mt String.toList_eq_nil_iff.mp hne
    obtain ⟨first, inner, hsplit⟩ := List.exists_cons_of_ne_nil hcons
    have hclose : isNameChar '>' = false := by decide
    obtain ⟨htake, hdrop⟩ := span_isNameChar hname hclose ('>' :: tail)
    have htext : (written name).toList ++ tail =
        '<' :: '<' :: (name.toList ++ '>' :: '>' :: tail) := by
      simp [toList_written]
    have hopen : opening? ('<' :: '<' :: (name.toList ++ '>' :: '>' :: tail)) =
        some (String.ofList (first :: inner), tail) := by
      rw [hsplit] at htake hdrop
      simp only [opening?, hsplit, htake, hdrop]
    rw [htext, hopen, ← hsplit, String.ofList_toList]

/-- Where a placeholder opens, it is cut off whole. -/
theorem piecesAfter_hole (found : List Piece) {text tail : List Char} {name : String}
    (h : opening? text = some (name, tail)) :
    piecesAfter found text = piecesAfter (.hole name :: found) tail := by
  rw [piecesAfter]
  split
  · rename_i name' tail' hopen
    rw [h, Option.some.injEq, Prod.mk.injEq] at hopen
    obtain ⟨rfl, rfl⟩ := hopen
    rfl
  · rename_i hopen
    rw [h] at hopen
    cases hopen

/-- The pieces found and those still to come take up what was found and the text. -/
theorem flatMap_chars_piecesAfter (found : List Piece) (text : List Char) :
    (piecesAfter found text).flatMap Piece.chars = found.reverse.flatMap Piece.chars ++ text := by
  fun_induction piecesAfter found text with
  | case1 found text name tail hopen ih =>
    obtain ⟨_, _, rfl⟩ := opening?_eq_some_iff.mp hopen
    rw [ih]
    simp [Piece.chars]
  | case2 found hopen => simp
  | case3 found c rest hopen ih =>
    rw [ih]
    simp [Piece.chars]

/-- Written one after another, the pieces of a text are the text. -/
theorem flatMap_chars_pieces (text : String) :
    (pieces text).flatMap Piece.chars = text.toList := by
  rw [pieces, flatMap_chars_piecesAfter]
  rfl

/-- A text that is one placeholder has no other piece. -/
theorem pieces_of_whole? {text name : String} (h : whole? text = some name) :
    pieces text = [.hole name] := by
  unfold whole? at h
  split at h
  · rename_i found hopen
    cases h
    rw [pieces, piecesAfter_hole [] hopen, piecesAfter_nil]
    rfl
  · cases h

/-- A text that is one placeholder holds it. -/
theorem hole_mem_pieces_of_whole? {text name : String} (h : whole? text = some name) :
    Piece.hole name ∈ pieces text := by
  rw [pieces_of_whole? h]
  exact List.mem_singleton_self _

/-- A text that is one placeholder is written as such. -/
theorem eq_written_of_whole? {text name : String} (h : whole? text = some name) :
    text = written name := by
  have hchars := flatMap_chars_pieces text
  rw [pieces_of_whole? h, List.flatMap_singleton] at hchars
  exact (String.toList_inj.mp hchars).symm

end Placeholder

end PosterOverlay
