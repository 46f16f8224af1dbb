import Mathlib.Data.List.Basic
import PosterOverlay.Proofs.Placeholder.Nesting

/-!
# What resolving looks up

Scans look up the names of placeholders and nothing else, and a placeholder is found just where a
text holds its written form. So a value is resolved alike among all variables that give the names
of placeholders the same visible values.
-/

namespace PosterOverlay

namespace Text

/-- A part occurs in a text exactly when it stands somewhere inside it. -/
theorem occursIn_iff_infix {part text : List Char} :
    occursIn part text = true ↔ part <:+: text := by
  induction text with
  | nil => simp [occursIn]
  | cons c rest ih =>
    rw [occursIn, Bool.or_eq_true, List.isPrefixOf_iff_prefix, ih, List.infix_cons_iff]

/-- A text holds itself. -/
theorem contains_self (text : String) : contains text text = true :=
  occursIn_iff_infix.mpr List.infix_rfl

/-- A part is not found where its first letter does not occur. -/
theorem infix_append_iff_of_not_mem {c : Char} {part front : List Char} (h : c ∉ front)
    (rest : List Char) : c :: part <:+: front ++ rest ↔ c :: part <:+: rest := by
  induction front with
  | nil => rfl
  | cons d front ih =>
    rw [List.mem_cons, not_or] at h
    rw [List.cons_append, List.infix_cons_iff, List.cons_prefix_cons, ih h.2]
    exact or_iff_right fun hfirst => h.1 hfirst.1

end Text

namespace Placeholder

/-- A placeholder stands inside a text that begins with a placeholder if it is this one, or stands
behind it. Two placeholders do not overlap. -/
theorem infix_written_append_iff {name first : String} (hname : IsName name)
    (hfirst : IsName first) (tail : List Char) :
    (written name).toList <:+: (written first).toList ++ tail ↔
      name = first ∨ (written name).toList <:+: tail := by
  have hplain : '<' ∉ first.toList := hfirst.2.not_mem (by decide)
  obtain ⟨c, inner, hsplit⟩ := List.exists_cons_of_ne_nil (mt String.toList_eq_nil_iff.mp hfirst.1)
  constructor
  · intro hinfix
    have htext : (written first).toList ++ tail =
        '<' :: '<' :: ((first.toList ++ ['>', '>']) ++ tail) := by
      simp [toList_written]
    rw [htext, List.infix_cons_iff, List.infix_cons_iff] at hinfix
    rcases hinfix with ⟨back, hback⟩ | ⟨back, hback⟩ | hinfix
    · left
      have hopen := opening?_eq_some_iff.mpr ⟨hname.1, hname.2, hback.symm⟩
      rw [← htext, opening?_eq_some_iff.mpr ⟨hfirst.1, hfirst.2, rfl⟩] at hopen
      cases hopen
      rfl
    · -- The second bracket of the one mark would be the first letter of the other name.
      rw [toList_written, hsplit] at hback
      have hletter : '<' = c := by
        simp only [List.cons_append, List.cons.injEq, true_and] at hback
        exact hback.1
      rw [hsplit, ← hletter] at hplain
      exact absurd List.mem_cons_self hplain
    · right
      have hmissing : '<' ∉ first.toList ++ ['>', '>'] := by simp [hplain]
      rw [toList_written] at hinfix ⊢
      exact (Text.infix_append_iff_of_not_mem hmissing tail).mp hinfix
  · rintro (rfl | hinfix)
    · exact ⟨[], tail, rfl⟩
    · exact hinfix.trans (List.suffix_append _ _).isInfix

/-- Cutting a text finds a placeholder exactly when it was found before or stands inside the
text. -/
theorem hole_mem_piecesAfter_iff {name : String} (hname : IsName name) (found : List Piece)
    (text : List Char) :
    Piece.hole name ∈ piecesAfter found text ↔
      Piece.hole name ∈ found ∨ (written name).toList <:+: text := by
  fun_induction piecesAfter found text with
  | case1 found text first tail hopen ih =>
    obtain ⟨hne, hplain, rfl⟩ := opening?_eq_some_iff.mp hopen
    rw [ih, infix_written_append_iff hname ⟨hne, hplain⟩, List.mem_cons, Piece.hole.injEq,
      or_assoc, or_left_comm]
  | case2 found hopen => simp [toList_written]
  | case3 found c rest hopen ih =>
    have hfirst : ¬ (written name).toList <+: c :: rest := by
      rintro ⟨tail, htail⟩
      rw [opening?_eq_some_iff.mpr ⟨hname.1, hname.2, htail.symm⟩] at hopen
      cases hopen
    have hletter : Piece.hole name ≠ Piece.letter c := by simp
    rw [ih, List.infix_cons_iff, or_iff_right hfirst, List.mem_cons, or_iff_right hletter]

/-- A text is cut at names only. -/
theorem isName_of_hole_mem_piecesAfter {name : String} {found : List Piece} {text : List Char}
    (h : Piece.hole name ∈ piecesAfter found text) : Piece.hole name ∈ found ∨ IsName name := by
  fun_induction piecesAfter found text with
  | case1 found text first tail hopen ih =>
    obtain ⟨hne, hplain, _⟩ := opening?_eq_some_iff.mp hopen
    rcases ih h with hmem | hname
    · rcases List.mem_cons.mp hmem with heq | hmem
      · cases heq
        exact .inr ⟨hne, hplain⟩
      · exact .inl hmem
    · exact .inr hname
  | case2 found hopen => exact .inl (List.mem_reverse.mp h)
  | case3 found c rest hopen ih => simpa using ih h

/-- The placeholders of a text are those whose written form stands inside it. -/
theorem hole_mem_pieces_iff {name text : String} :
    Piece.hole name ∈ pieces text ↔
      IsName name ∧ Text.contains text (written name) = true := by
  rw [Text.contains, Text.occursIn_iff_infix]
  constructor
  · intro h
    have hname := (isName_of_hole_mem_piecesAfter h).resolve_left List.not_mem_nil
    exact ⟨hname, ((hole_mem_piecesAfter_iff hname _ _).mp h).resolve_left List.not_mem_nil⟩
  · rintro ⟨hname, hinfix⟩
    exact (hole_mem_piecesAfter_iff hname _ _).mpr (.inr hinfix)

end Placeholder

/-- Two sets of variables give the names of placeholders the same visible values. -/
def Variables.LookAlike (first second : Variables) : Prop :=
  ∀ name, Placeholder.IsName name → first.visible? name = second.visible? name

/-- Variables that answer every lookup alike look alike. -/
theorem Variables.lookAlike_of_get? {first second : Variables}
    (h : ∀ name, Fields.get? first name = Fields.get? second name) : first.LookAlike second := by
  intro name _
  rw [visible?, visible?, h]

namespace Variables.LookAlike

variable {first second : Variables}

/-- The placeholders of a text stand for the same texts. -/
theorem textsFor_eq (h : first.LookAlike second) (text : String) :
    first.textsFor ((Placeholder.pieces text).filterMap Piece.name?) =
      second.textsFor ((Placeholder.pieces text).filterMap Piece.name?) := by
  refine List.filterMap_congr fun name hname => ?_
  obtain ⟨piece, hpiece, hpieceName⟩ := List.mem_filterMap.mp (List.mem_eraseDups.mp hname)
  cases piece with
  | letter c => cases hpieceName
  | hole found =>
    cases hpieceName
    dsimp only
    rw [h _ (Placeholder.hole_mem_pieces_iff.mp hpiece).1]

/-- One scan makes the same value of a text. -/
theorem scan_eq (h : first.LookAlike second) (length : Nat) (text : String) :
    Placeholder.scan first length text = Placeholder.scan second length text := by
  have hsplice (room : Nat) :
      Placeholder.splice first room text = Placeholder.splice second room text := by
    unfold Placeholder.splice
    dsimp only
    rw [h.textsFor_eq]
  have hwhole : (Placeholder.whole? text).bind first.visible? =
      (Placeholder.whole? text).bind second.visible? := by
    cases hname : Placeholder.whole? text with
    | none => rfl
    | some name =>
      have hmem := Placeholder.hole_mem_pieces_of_whole? hname
      exact h name (Placeholder.hole_mem_pieces_iff.mp hmem).1
  rw [Placeholder.scan, Placeholder.scan, hwhole, hsplice]

/-- Any number of scans make the same value of a text. -/
theorem scanUpTo_eq (h : first.LookAlike second) (length depth : Nat) (text : String) :
    Placeholder.scanUpTo first length depth text =
      Placeholder.scanUpTo second length depth text := by
  induction depth generalizing text with
  | zero => rfl
  | succ depth ih => simp only [Placeholder.scanUpTo, h.scan_eq, ih]

mutual

/-- A value is resolved to the same value. -/
theorem resolve_eq (h : first.LookAlike second) (limits : Limits) (value : Value) :
    limits.resolve first value = limits.resolve second value := by
  cases value with
  | string s => exact h.scanUpTo_eq _ _ s
  | sequence items => rw [Limits.resolve, Limits.resolve, resolveItems_eq h limits items]
  | mapping fields => rw [Limits.resolve, Limits.resolve, resolveFields_eq h limits fields]
  | _ => rfl

theorem resolveItems_eq (h : first.LookAlike second) (limits : Limits) (items : List Value) :
    limits.resolveItems first items = limits.resolveItems second items := by
  cases items with
  | nil => rfl
  | cons item rest =>
    rw [Limits.resolveItems, Limits.resolveItems, resolve_eq h limits item,
      resolveItems_eq h limits rest]

theorem resolveFields_eq (h : first.LookAlike second) (limits : Limits)
    (fields : List (String × Value)) :
    limits.resolveFields first fields = limits.resolveFields second fields := by
  cases fields with
  | nil => rfl
  | cons field rest =>
    obtain ⟨name, value⟩ := field
    rw [Limits.resolveFields, Limits.resolveFields, resolve_eq h limits value,
      resolveFields_eq h limits rest]

end

end Variables.LookAlike

end PosterOverlay
