import Mathlib
import PosterOverlay.Number.Notation
import PosterOverlay.Value.Same

/-!
# Doubles that are the same

Doubles are the same exactly when they are equal, apart from the two zeros, which are the same
although only one of them is written with a sign.
-/

namespace PosterOverlay

/-- The same doubles are equal, or they are the two zeros. -/
theorem sameFloat_iff {x y : Float} :
    sameFloat x y = true ↔ x = y ∨ x = 0 ∧ y = -0 ∨ x = -0 ∧ y = 0 := by
  rw [sameFloat, Bool.or_eq_true, Bool.and_eq_true, Float.beq_iff_ne_nan_and_eq,
    Float.isNaN_eq_decide_eq_nan, Float.isNaN_eq_decide_eq_nan, decide_eq_true_iff,
    decide_eq_true_iff]
  constructor
  · rintro (⟨_, _, h⟩ | ⟨rfl, rfl⟩)
    · exact h
    · exact .inl rfl
  · rintro (rfl | h)
    · by_cases hnan : x = Float.nan
      · exact .inr ⟨hnan, hnan⟩
      · exact .inl ⟨hnan, hnan, .inl rfl⟩
    · have hzero : (0 : Float) ≠ Float.nan := by decide +kernel
      have hminus : (-0 : Float) ≠ Float.nan := by decide +kernel
      rcases h with ⟨rfl, rfl⟩ | ⟨rfl, rfl⟩
      · exact .inl ⟨hzero, hminus, .inr (.inl ⟨rfl, rfl⟩)⟩
      · exact .inl ⟨hminus, hzero, .inr (.inr ⟨rfl, rfl⟩)⟩

namespace FloatNotation

theorem write_zero (style : FloatNotation) : style.write 0 = ['0', '.', '0'] := by
  have hnan : (0 : Float).isNaN = false := by decide +kernel
  have hinf : (0 : Float).isInf = false := by decide +kernel
  have hsign : Binary64.isNegative 0 = false := by decide +kernel
  have hzero : ((0 : Float) == 0) = true := by decide +kernel
  simp only [write, hnan, hinf, hsign, hzero, Bool.false_eq_true, if_false, if_true,
    List.nil_append]

theorem write_minus_zero (style : FloatNotation) : style.write (-0) = ['-', '0', '.', '0'] := by
  have hnan : (-0 : Float).isNaN = false := by decide +kernel
  have hinf : (-0 : Float).isInf = false := by decide +kernel
  have hsign : Binary64.isNegative (-0) = true := by decide +kernel
  have hzero : ((-0 : Float) == 0) = true := by decide +kernel
  simp only [write, hnan, hinf, hsign, hzero, Bool.false_eq_true, if_false, if_true,
    List.cons_append, List.nil_append]

/-- The same doubles are equal when their texts are, whatever follows these. -/
theorem eq_of_same_of_write (style : FloatNotation) {x y : Float} (h : sameFloat x y = true)
    {rest rest' : List Char} (htext : style.write x ++ rest = style.write y ++ rest') :
    x = y ∧ rest = rest' := by
  rcases sameFloat_iff.mp h with rfl | ⟨rfl, rfl⟩ | ⟨rfl, rfl⟩
  · exact ⟨rfl, List.append_cancel_left htext⟩
  · rw [write_zero, write_minus_zero] at htext
    cases htext
  · rw [write_zero, write_minus_zero] at htext
    cases htext

end FloatNotation

end PosterOverlay
