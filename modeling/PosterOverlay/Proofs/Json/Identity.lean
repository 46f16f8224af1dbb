import PosterOverlay.Proofs.Json.Layout
import PosterOverlay.Proofs.Placeholder.Iteration

/-!
# Values told apart by their text

The text of a sequence or a mapping is its JSON. As that reads back as the value, the text tells
such values apart, and so do comparisons by text and texts into which the value is spliced.
-/

namespace PosterOverlay

namespace Value

/-- The text of a sequence or a mapping is its compact JSON. -/
theorem text_of_not_isScalar {value : Value} (h : value.isScalar = false) :
    value.text = Json.write value := by
  cases value with
  | sequence items => rfl
  | mapping fields => rfl
  | _ => cases h

/-- A placeholder of a sequence or a mapping stands for it. -/
theorem visible?_insert_of_not_isScalar {value : Value} (h : value.isScalar = false)
    (scope : Variables) (name : String) :
    Variables.visible? (Fields.insert name value scope) name = some value := by
  rw [Variables.visible?, Fields.get?_insert, if_pos rfl]
  cases value with
  | sequence items => rfl
  | mapping fields => rfl
  | _ => cases h

/-- Sequences and mappings with the same text are equal. -/
theorem FitsJson.text_inj {a b : Value} (ha : a.FitsJson) (hb : b.FitsJson)
    (hascalar : a.isScalar = false) (hbscalar : b.isScalar = false) :
    a.text = b.text ↔ a = b := by
  rw [text_of_not_isScalar hascalar, text_of_not_isScalar hbscalar, Json.write_inj ha hb]

end Value

namespace Placeholder

open Value

/-- Lists made of parts can only be equal if the parts are, provided that all parts but those of one
kind are equal to begin with. -/
theorem eq_of_flatMap_eq {α β : Type} [DecidableEq α] {f g : α → List β} {x : α}
    {items : List α} (hx : x ∈ items) (hothers : ∀ y, y ≠ x → f y = g y)
    (h : items.flatMap f = items.flatMap g) : f x = g x := by
  -- Each occurrence counts for the difference of the two lengths once.
  have hlengths (items : List α) :
      (items.flatMap f).length + items.count x * (g x).length =
        (items.flatMap g).length + items.count x * (f x).length := by
    induction items with
    | nil => simp
    | cons y items ih =>
      simp only [List.flatMap_cons, List.length_append]
      by_cases hy : y = x
      · subst hy
        rw [List.count_cons_self, Nat.add_mul, Nat.add_mul]
        omega
      · rw [List.count_cons_of_ne hy, hothers y hy]
        omega
  have hlength : (g x).length = (f x).length := by
    have hsum := hlengths items
    rw [h, Nat.add_left_cancel_iff] at hsum
    exact Nat.eq_of_mul_eq_mul_left (List.count_pos_iff.mpr hx) hsum
  induction items with
  | nil => cases hx
  | cons y items ih =>
    rw [List.flatMap_cons, List.flatMap_cons] at h
    by_cases hy : y = x
    · subst hy
      exact List.append_inj_left h hlength.symm
    · rw [hothers y hy] at h
      exact ih ((List.mem_cons.mp hx).resolve_left (Ne.symm hy)) (List.append_cancel_left h)

/-- Spliced in the same place of a text, two sequences or mappings leave the same text only if
theirs is the same. -/
theorem text_eq_of_scan_insert_eq {a b : Value} (ha : a.isScalar = false)
    (hb : b.isScalar = false) {scope : Variables} {name text : String} {length : Nat}
    (hname : Piece.hole name ∈ pieces text)
    (hroom : demand (Fields.insert name a scope) text ≤ length)
    (hroom' : demand (Fields.insert name b scope) text ≤ length)
    (h : scan (Fields.insert name a scope) length text =
      scan (Fields.insert name b scope) length text) : a.text = b.text := by
  rw [demand] at hroom hroom'
  have htext := congrArg Value.text h
  rw [text_scan_of_room (by omega), text_scan_of_room (by omega), String.ofList_inj] at htext
  have hothers (piece : Piece) (hpiece : piece ≠ .hole name) :
      piece.replaced (Fields.insert name a scope) =
        piece.replaced (Fields.insert name b scope) := by
    cases piece with
    | letter c => rfl
    | hole other =>
      have hne : name ≠ other := by
        rintro rfl
        exact hpiece rfl
      simp [Piece.replaced, Variables.visible?, Fields.get?_insert, hne]
  have hchars := eq_of_flatMap_eq hname hothers htext
  simp only [Piece.replaced, visible?_insert_of_not_isScalar ha,
    visible?_insert_of_not_isScalar hb, Option.map_some, Option.elim_some] at hchars
  exact String.toList_inj.mp hchars

end Placeholder

namespace Value

open Placeholder

/-- JSON determines a value. Whichever way it is written, its text reads back as the value, with
all names in their order. Hence sequences and mappings are equal as soon as their texts are, as
soon as they are loosely the same, and as soon as a text into which one of them is spliced comes
out the same with the other. -/
theorem FitsJson.determined {a : Value} (ha : a.FitsJson) :
    Json.read? (Json.write a) = some a ∧ Json.read? (Json.writePretty a) = some a ∧
      ∀ b : Value, b.FitsJson → a.isScalar = false → b.isScalar = false →
        (a.text = b.text ↔ a = b) ∧ (a.looselySame b = true ↔ a = b) ∧
          ∀ (scope : Variables) (name text : String) (length : Nat),
            Piece.hole name ∈ pieces text →
            demand (Fields.insert name a scope) text ≤ length →
            demand (Fields.insert name b scope) text ≤ length →
            (scan (Fields.insert name a scope) length text =
              scan (Fields.insert name b scope) length text ↔ a = b) := by
  refine ⟨Json.read?_write ha, Json.read?_writePretty ha, fun b hb hascalar hbscalar => ?_⟩
  have htext := ha.text_inj hb hascalar hbscalar
  refine ⟨htext, ?_, fun scope name text length hname hroom hroom' => ⟨fun hscan => ?_, ?_⟩⟩
  · rw [looselySame, beq_iff_eq, htext]
  · exact htext.mp (text_eq_of_scan_insert_eq hascalar hbscalar hname hroom hroom' hscan)
  · rintro rfl
    rfl

/-- Two mappings with the same entries in another order are told apart, with quotes and control
characters in their names and with whole numbers at both ends of the range. -/
theorem FitsJson.determined_order :
    let a : Value := .mapping [("a \"b\"\n", .sequence [.int (-2 ^ 63), .null, .sequence []]),
      ("é\\", .mapping [("", .int (2 ^ 64 - 1)), ("-", .bool false)])]
    let b : Value := .mapping [("é\\", .mapping [("", .int (2 ^ 64 - 1)), ("-", .bool false)]),
      ("a \"b\"\n", .sequence [.int (-2 ^ 63), .null, .sequence []])]
    let scope : Variables := [("box", .null), ("who", .string "<<box>>")]
    a.FitsJson ∧ b.FitsJson ∧ a.isScalar = false ∧ b.isScalar = false ∧
      Piece.hole "box" ∈ pieces "<<who>>: <<box>>." ∧
      demand (Fields.insert "box" a scope) "<<who>>: <<box>>." ≤ 100 ∧
      demand (Fields.insert "box" b scope) "<<who>>: <<box>>." ≤ 100 ∧
      Json.read? (Json.write a) = some a ∧ Json.read? (Json.writePretty b) = some b ∧
      a.text ≠ b.text ∧ a.looselySame b = false ∧
      scan (Fields.insert "box" a scope) 100 "<<who>>: <<box>>." ≠
        scan (Fields.insert "box" b scope) 100 "<<who>>: <<box>>." := by
  intro a b scope
  have ha : a.FitsJson := ⟨by simp [a, IsWhole, ItemsWhole, FieldsWhole],
    by simp [a, Distinct, ItemsDistinct, FieldsDistinct, Fields.Distinct, Fields.names],
    by decide⟩
  have hb : b.FitsJson := ⟨by simp [b, IsWhole, ItemsWhole, FieldsWhole],
    by simp [b, Distinct, ItemsDistinct, FieldsDistinct, Fields.Distinct, Fields.names],
    by decide⟩
  have hne : a ≠ b := by simp [a, b]
  have hname : Piece.hole "box" ∈ pieces "<<who>>: <<box>>." := by decide +kernel
  have hroom : demand (Fields.insert "box" a scope) "<<who>>: <<box>>." ≤ 100 := by
    decide +kernel
  have hroom' : demand (Fields.insert "box" b scope) "<<who>>: <<box>>." ≤ 100 := by
    decide +kernel
  obtain ⟨hread, _, hother⟩ := FitsJson.determined ha
  obtain ⟨htext, hloose, hsplice⟩ := hother b hb rfl rfl
  refine ⟨ha, hb, rfl, rfl, hname, hroom, hroom', hread, (FitsJson.determined hb).2.1,
    mt htext.mp hne, Bool.eq_false_iff.mpr (mt hloose.mp hne), ?_⟩
  exact mt (hsplice scope "box" _ 100 hname hroom hroom').mp hne

end Value

end PosterOverlay
