import PosterOverlay.Proofs.Value.Distinct
import PosterOverlay.Value.Same

/-!
# Sameness, entry by entry

Sameness of sequences compares items place by place; sameness of mappings looks each name of the
first one up in the second.
-/

namespace PosterOverlay.Value

/-- Only the text itself is the same as a text. -/
theorem eq_of_same_string {value : Value} {text : String}
    (h : value.same (.string text) = true) : value = .string text := by
  cases value with
  | string s => simpa [same] using h
  | _ => simp [same] at h

/-- Only a double is the same as a double. -/
theorem exists_of_same_float {x : Float} {value : Value} (h : (float x).same value = true) :
    ∃ y, value = float y ∧ sameFloat x y = true := by
  cases value with
  | float y => exact ⟨y, rfl, by simpa [same] using h⟩
  | _ => simp [same] at h

/-- Only a sequence is the same as a sequence. -/
theorem exists_of_same_sequence {items : List Value} {value : Value}
    (h : (sequence items).same value = true) :
    ∃ others, value = sequence others ∧ sameItems items others = true := by
  cases value with
  | sequence others => exact ⟨others, rfl, by simpa [same] using h⟩
  | _ => simp [same] at h

/-- Only a mapping with as many entries is the same as a mapping. -/
theorem exists_of_same_mapping {fields : Fields Value} {value : Value}
    (h : (mapping fields).same value = true) :
    ∃ others : Fields Value, value = mapping others ∧ fields.length = List.length others ∧
      within fields others = true := by
  cases value with
  | mapping others =>
    rw [same, Bool.and_eq_true, beq_iff_eq] at h
    exact ⟨others, rfl, h⟩
  | _ => simp [same] at h

/-- Every entry of the first list has the same value as the entry of its name in the second. -/
theorem within_iff {fields others : Fields Value} :
    within fields others = true ↔ ∀ entry ∈ fields, ∃ other,
      Fields.get? others entry.1 = some other ∧ entry.2.same other = true := by
  induction fields with
  | nil => simp [within]
  | cons entry rest ih =>
    obtain ⟨name, value⟩ := entry
    rw [within, Bool.and_eq_true, ih, List.forall_mem_cons]
    refine and_congr_left fun _ => ?_
    cases hother : Fields.get? others name <;> simp

/-- Two mappings that open with the same name have the same value there, and the same entries after
it. -/
theorem within_cons_cons {name : String} {value other : Value} {rest others : Fields Value}
    (hdistinct : Fields.Distinct ((name, value) :: rest)) :
    within ((name, value) :: rest) ((name, other) :: others) = true ↔
      value.same other = true ∧ within rest others = true := by
  have hnew : name ∉ Fields.names rest := hdistinct.cons.1
  rw [within_iff, within_iff, List.forall_mem_cons]
  refine and_congr ?_ (forall₂_congr fun entry hentry => ?_)
  · simp
  · have hne : name ≠ entry.1 := by
      rintro rfl
      exact hnew (List.mem_map_of_mem hentry)
    rw [Fields.get?_cons, if_neg hne]

end PosterOverlay.Value
