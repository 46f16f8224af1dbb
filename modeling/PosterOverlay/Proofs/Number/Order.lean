import Mathlib

/-!
# The order of doubles

The doubles other than not-a-number stand in a row: first by what kind of number they are, then by
exponent and significand, which count backwards below zero. Their comparison is that of their
ranks in this row, and the two zeros share a rank.
-/

namespace PosterOverlay.Binary64

open Float.Model

/-- The rank of an unpacked double: its kind, from minus infinity to infinity, and within a kind
its exponent and significand. -/
def rankOf : UnpackedFloat → Int ×ₗ Int ×ₗ Int
  | .infinity .negative => toLex (-2, toLex (0, 0))
  | .finite .negative significand exponent _ => toLex (-1, toLex (-exponent, -significand))
  | .zero _ | .notANumber => toLex (0, toLex (0, 0))
  | .finite .positive significand exponent _ => toLex (1, toLex (exponent, significand))
  | .infinity .positive => toLex (2, toLex (0, 0))

/-- The rank of a double among all doubles. -/
def rank (x : Float) : Int ×ₗ Int ×ₗ Int :=
  rankOf x.toModel.unpack

/-- Numbers of the same sign compare first by exponent and then by significand. -/
theorem compare_then_eq_lt_iff {e e' : Int} {m m' : Nat} :
    (compare e e').then (compare m m') = .lt ↔ e < e' ∨ e = e' ∧ m < m' := by
  rw [Ordering.then_eq_lt, Int.compare_eq_lt, Int.compare_eq_eq, Nat.compare_eq_lt]

theorem compare_then_eq_gt_iff {e e' : Int} {m m' : Nat} :
    (compare e e').then (compare m m') = .gt ↔ e' < e ∨ e = e' ∧ m' < m := by
  rw [Ordering.then_eq_gt, Int.compare_eq_gt, Int.compare_eq_eq, Nat.compare_eq_gt]

/-- Unpacked doubles that are numbers compare by their ranks. -/
theorem compare_eq_lt_iff {x y : UnpackedFloat} (hx : x.isNaN = false) (hy : y.isNaN = false) :
    x.compare y = some .lt ↔ rankOf x < rankOf y := by
  cases x with
  | notANumber => cases hx
  | infinity sign =>
    cases y with
    | notANumber => cases hy
    | infinity sign' => cases sign <;> cases sign' <;> decide
    | zero => cases sign <;> simp [UnpackedFloat.compare, rankOf, Prod.Lex.toLex_lt_toLex]
    | finite sign' =>
      cases sign <;> cases sign' <;>
        simp [UnpackedFloat.compare, rankOf, Prod.Lex.toLex_lt_toLex]
  | zero =>
    cases y with
    | notANumber => cases hy
    | infinity sign' | finite sign' =>
      cases sign' <;> simp [UnpackedFloat.compare, rankOf, Prod.Lex.toLex_lt_toLex]
    | zero => simp [UnpackedFloat.compare, rankOf]
  | finite sign =>
    cases y with
    | notANumber => cases hy
    | infinity sign' =>
      cases sign <;> cases sign' <;>
        simp [UnpackedFloat.compare, rankOf, Prod.Lex.toLex_lt_toLex]
    | zero => cases sign <;> simp [UnpackedFloat.compare, rankOf, Prod.Lex.toLex_lt_toLex]
    | finite sign' =>
      cases sign with
      | negative =>
        cases sign' <;>
          simp [UnpackedFloat.compare, rankOf, Prod.Lex.toLex_lt_toLex, compare_then_eq_gt_iff]
      | positive =>
        cases sign' <;>
          simp [UnpackedFloat.compare, rankOf, Prod.Lex.toLex_lt_toLex, compare_then_eq_lt_iff]

/-- Doubles that are numbers compare by their ranks. -/
theorem lt_iff_rank_lt {x y : Float} (hx : x.isNaN = false) (hy : y.isNaN = false) :
    x < y ↔ rank x < rank y := by
  have hunpack : x < y ↔ x.toModel.unpack.compare y.toModel.unpack = some .lt := by
    change decide (x.toModel < y.toModel) = true ↔ _
    rw [decide_eq_true_iff]
    exact beq_iff_eq
  exact hunpack.trans (compare_eq_lt_iff hx hy)

end PosterOverlay.Binary64
