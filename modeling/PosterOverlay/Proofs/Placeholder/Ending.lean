import PosterOverlay.Proofs.Placeholder.Iteration

/-!
# Plain endings

A plain text that is put behind another one takes no part in any placeholder. Replacing leaves it
where it is, as often as it is done. What changes is the room: the ending takes up its own bytes, so
that the text before it is resolved as it would be alone only if there is room for both.
-/

namespace PosterOverlay

namespace Placeholder

/-- A plain ending stays behind the placeholder that opens a text, and it completes none: a
placeholder would have to close within it. -/
theorem opening?_append {ending : List Char} (hending : ∀ c ∈ ending, isNameChar c = true)
    (text : List Char) :
    opening? (text ++ ending) =
      (opening? text).map fun (name, tail) => (name, tail ++ ending) := by
  ext ⟨name, later⟩
  simp only [Option.map_eq_some_iff, Prod.exists, Prod.mk.injEq, opening?_eq_some_iff]
  constructor
  · rintro ⟨hne, hname, htext⟩
    rcases List.append_eq_append_iff.mp htext with ⟨back, hwritten, hback⟩ | ⟨tail, htail, hlater⟩
    · have hlast : (written name).toList.getLast? = some '>' := by
        rw [toList_written, ← List.cons_append, ← List.cons_append, List.getLast?_append]
        rfl
      have hclose : '>' ∈ back ∨ back = [] := by
        rw [hwritten, List.getLast?_append] at hlast
        cases hfound : back.getLast? with
        | none => exact .inr (List.getLast?_eq_none_iff.mp hfound)
        | some c =>
          rw [hfound, Option.some_or] at hlast
          cases hlast
          exact .inl (List.mem_of_getLast? hfound)
      rcases hclose with hclose | rfl
      · have hplain := hending '>' (hback ▸ List.mem_append_left later hclose)
        exact absurd hplain (by decide)
      · exact ⟨name, [], ⟨hne, hname, by simpa using hwritten.symm⟩, rfl, by simpa using hback⟩
    · exact ⟨name, tail, ⟨hne, hname, htail⟩, rfl, hlater.symm⟩
  · rintro ⟨_, tail, ⟨hne, hname, rfl⟩, rfl, rfl⟩
    exact ⟨hne, hname, List.append_assoc _ _ _⟩

/-- A plain ending is cut into its letters, behind the pieces of the text before it. -/
theorem piecesAfter_append (found : List Piece) {ending : List Char}
    (hending : ∀ c ∈ ending, isNameChar c = true) (text : List Char) :
    piecesAfter found (text ++ ending) = piecesAfter found text ++ ending.map Piece.letter := by
  fun_induction piecesAfter found text with
  | case1 found text name tail hopen ih =>
    have hopen' := opening?_append hending text
    rw [hopen, Option.map_some] at hopen'
    rw [piecesAfter_hole found hopen', ih]
  | case2 found hopen =>
    have hplain := piecesAfter_plain found hending []
    rw [List.append_nil] at hplain
    rw [List.nil_append, hplain, piecesAfter_nil]
    simp
  | case3 found c rest hopen ih =>
    have hopen' := opening?_append hending (c :: rest)
    rw [hopen, Option.map_none] at hopen'
    rw [List.cons_append] at hopen' ⊢
    rw [piecesAfter_cons found hopen', ih]

/-- Replacing the placeholders of a text demands no more room than if each of its bytes were
replaced by the longest variable. -/
theorem demand_le (scope : Variables) (text : String) :
    demand scope text ≤ text.utf8ByteSize + text.utf8ByteSize * scope.longest := by
  have hpieces (pieces : List Piece) : (pieces.map (Piece.growth scope)).sum ≤
      (String.ofList (pieces.flatMap Piece.chars)).utf8ByteSize * scope.longest := by
    induction pieces with
    | nil => exact Nat.zero_le _
    | cons piece pieces ih =>
      have hchars : 1 ≤ (String.ofList piece.chars).utf8ByteSize := by
        cases piece with
        | letter c =>
          rw [Piece.chars, ← String.singleton_eq_ofList, String.utf8ByteSize_singleton]
          exact c.utf8Size_pos
        | hole name => simp [Piece.chars, size_written]
      have hpiece := Nat.mul_le_mul hchars (piece.growth_le_longest scope)
      rw [List.map_cons, List.sum_cons, List.flatMap_cons, String.ofList_append,
        String.utf8ByteSize_append, Nat.add_mul]
      omega
  have hgrowth := hpieces (pieces text)
  rw [flatMap_chars_pieces, String.ofList_toList] at hgrowth
  exact Nat.add_le_add_left hgrowth _

variable {ending : String} (hending : IsPlain ending)

include hending

/-- The pieces of a text with a plain ending are those of the text, and letters. -/
theorem pieces_append (text : String) :
    pieces (text ++ ending) = pieces text ++ ending.toList.map Piece.letter := by
  rw [pieces, String.toList_append, piecesAfter_append [] hending, pieces]

/-- Replacing leaves a plain ending where it is. -/
theorem replaceAll_append (scope : Variables) (text : String) :
    replaceAll scope (text ++ ending) = replaceAll scope text ++ ending := by
  have hletters : (ending.toList.map Piece.letter).flatMap (Piece.replaced scope) =
      ending.toList := by
    rw [List.flatMap_map]
    simp [Piece.replaced]
  rw [replaceAll, pieces_append hending, List.flatMap_append, hletters, String.ofList_append,
    String.ofList_toList, replaceAll]

/-- Replacing any number of times leaves a plain ending where it is. -/
theorem iterate_replaceAll_append (scope : Variables) (text : String) (count : Nat) :
    (replaceAll scope)^[count] (text ++ ending) = (replaceAll scope)^[count] text ++ ending := by
  have hstep : Function.Semiconj (· ++ ending) (replaceAll scope) (replaceAll scope) :=
    fun text => (replaceAll_append hending scope text).symm
  exact ((hstep.iterate_right count) text).symm

/-- A plain ending demands room for itself. -/
theorem demand_append (scope : Variables) (text : String) :
    demand scope (text ++ ending) = demand scope text + ending.utf8ByteSize := by
  have hletters : ((ending.toList.map Piece.letter).map (Piece.growth scope)).sum = 0 := by
    rw [List.map_map]
    exact List.sum_eq_zero_iff_forall_eq_nat.mpr (by simp [Piece.growth])
  rw [demand, pieces_append hending, String.utf8ByteSize_append, List.map_append, List.sum_append,
    hletters, demand]
  omega

/-- Where two texts are replaced by each other with a plain ending, each further time adds one more
ending. So a measure to which the ending adds its bytes grows by these each time. -/
theorem measure_iterate_replaceAll {scope : Variables} {first second : String}
    (hfirst : replaceAll scope first = second ++ ending)
    (hsecond : replaceAll scope second = first ++ ending) {measure : String → Nat}
    (hmeasure : ∀ text, measure (text ++ ending) = measure text + ending.utf8ByteSize)
    (hsame : measure first = measure second) (count : Nat) :
    measure ((replaceAll scope)^[count] first) = measure first + count * ending.utf8ByteSize := by
  suffices hboth : measure ((replaceAll scope)^[count] first) =
        measure first + count * ending.utf8ByteSize ∧
      measure ((replaceAll scope)^[count] second) =
        measure second + count * ending.utf8ByteSize from hboth.1
  induction count with
  | zero => simp
  | succ count ih =>
    rw [Function.iterate_succ_apply, Function.iterate_succ_apply, hfirst, hsecond,
      iterate_replaceAll_append hending, iterate_replaceAll_append hending, hmeasure, hmeasure,
      Nat.succ_mul]
    omega

end Placeholder

namespace Limits

open Placeholder

/-- Among scalars, with room for it, resolving a name replaces all of its placeholders as often as
the depth says. -/
theorem resolveName_of_room {limits : Limits} {scope : Variables} (hscope : scope.AreScalar)
    {name : String}
    (hroom : ∀ count < limits.depth,
      demand scope ((replaceAll scope)^[count] name) ≤ limits.length) :
    limits.resolveName scope name = (replaceAll scope)^[limits.depth] name := by
  rw [resolveName, resolveText, scanUpTo_eq_iterate]
  exact (text_iterate_rescan hscope hroom).2

/-- Among scalars, with room for both, a name with a plain ending is resolved to what the name alone
is resolved to, with the ending. -/
theorem resolveName_append {limits : Limits} {scope : Variables} (hscope : scope.AreScalar)
    {name ending : String} (hending : IsPlain ending)
    (hroom : ∀ count < limits.depth,
      demand scope ((replaceAll scope)^[count] name) + ending.utf8ByteSize ≤ limits.length) :
    limits.resolveName scope (name ++ ending) = limits.resolveName scope name ++ ending := by
  have hname := resolveName_of_room hscope fun count hcount =>
    Nat.le_trans (Nat.le_add_right _ _) (hroom count hcount)
  have hboth : limits.resolveName scope (name ++ ending) =
      (replaceAll scope)^[limits.depth] (name ++ ending) :=
    resolveName_of_room hscope fun count hcount => by
      rw [iterate_replaceAll_append hending, demand_append hending]
      exact hroom count hcount
  rw [hboth, iterate_replaceAll_append hending, hname]

end Limits

end PosterOverlay
