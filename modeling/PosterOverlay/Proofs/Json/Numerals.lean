import Mathlib.Algebra.Group.Int.Defs
import Mathlib.Data.List.TakeDrop
import PosterOverlay.Json.Number

/-!
# Whole numbers in JSON

The decimal digits of a number read back as the number, and they start with no needless zero. So
a whole number that fits in 64 bits is read back from its text, unless what follows would go on
with the numeral.
-/

namespace PosterOverlay

namespace Text

/-- The decimal digits of a number are digits. -/
theorem isDigit_decimalDigits (n : Nat) : ∀ c ∈ decimalDigits n, c.isDigit = true :=
  forall_mem_decimalDigits (by decide) n

/-- The digits of a number name it. -/
theorem ofDecimalDigits_decimalDigits (n : Nat) : ofDecimalDigits (decimalDigits n) = n := by
  have hdigit : ∀ digit < 10, digitValue? (digitChar digit) = some digit := by decide
  fun_induction decimalDigits n with
  | case1 n hn => simp [ofDecimalDigits, hdigit n hn]
  | case2 n _ ih =>
    have hlast := hdigit (n % 10) (Nat.mod_lt n (by decide))
    rw [ofDecimalDigits] at ih ⊢
    rw [List.foldl_append, ih, List.foldl_cons, List.foldl_nil, hlast, Option.getD_some]
    exact Nat.div_add_mod n 10

/-- The digits of a number other than zero start with another digit than zero. -/
theorem exists_decimalDigits_eq_cons {n : Nat} (h : n ≠ 0) :
    ∃ c rest, decimalDigits n = c :: rest ∧ c ≠ '0' := by
  have hdigit : ∀ digit < 10, digit ≠ 0 → digitChar digit ≠ '0' := by decide
  fun_induction decimalDigits n with
  | case1 n hn => exact ⟨_, [], rfl, hdigit n hn h⟩
  | case2 n hn ih =>
    obtain ⟨c, rest, heq, hc⟩ := ih (by omega)
    exact ⟨c, rest ++ [digitChar (n % 10)], by rw [heq, List.cons_append], hc⟩

/-- A number without leading zeros has digits. -/
theorem decimalDigits_ne_nil (n : Nat) : decimalDigits n ≠ [] := by
  rw [decimalDigits]
  split <;> simp

end Text

namespace Json

/-- The text cannot go on with a numeral that ends before it. -/
def EndsNumeral (text : List Char) : Prop :=
  ∀ c ∈ text.head?, c.isDigit = false ∧ c ≠ '.' ∧ c ≠ 'e' ∧ c ≠ 'E'

namespace Numeral

/-- The digits of a number may stand before a point. -/
theorem isWholePart_decimalDigits (n : Nat) : isWholePart (Text.decimalDigits n) = true := by
  by_cases h : n = 0
  · subst h
    rw [Text.decimalDigits]
    rfl
  · obtain ⟨c, rest, heq, hc⟩ := Text.exists_decimalDigits_eq_cons h
    rw [heq]
    unfold isWholePart
    split
    · contradiction
    · rename_i hzero
      cases hzero
      exact absurd rfl hc
    · rfl

/-- Digits are separated from what cannot go on with them. -/
theorem spanDigits_append {digits rest : List Char} (hdigits : ∀ c ∈ digits, c.isDigit = true)
    (hrest : EndsNumeral rest) : spanDigits (digits ++ rest) = (digits, rest) := by
  have hstop : rest.takeWhile Char.isDigit = [] ∧ rest.dropWhile Char.isDigit = rest := by
    cases rest with
    | nil => exact ⟨rfl, rfl⟩
    | cons c rest => simp [(hrest c rfl).1]
  rw [spanDigits, List.span_eq_takeWhile_dropWhile, List.takeWhile_append_of_pos hdigits,
    List.dropWhile_append_of_pos hdigits, hstop.1, hstop.2, List.append_nil]

/-- Where a numeral ends there is no fraction. -/
theorem fractionAt?_of_endsNumeral {rest : List Char} (h : EndsNumeral rest) :
    fractionAt? rest = some ([], rest) := by
  unfold fractionAt?
  split
  · exact absurd rfl (h '.' rfl).2.1
  · rfl

/-- Where a numeral ends there is no exponent. -/
theorem exponentAt?_of_endsNumeral {rest : List Char} (h : EndsNumeral rest) :
    exponentAt? rest = some (none, rest) := by
  cases rest with
  | nil => rfl
  | cons c rest =>
    obtain ⟨_, _, he, hE⟩ := h c rfl
    simp [exponentAt?, he, hE]

/-- The numeral of a whole number is taken off the front of a text. -/
theorem at?_integerChars (i : Int) {rest : List Char} (h : EndsNumeral rest) :
    at? (Text.integerChars i ++ rest) =
      some (⟨decide (i < 0), Text.decimalDigits i.natAbs, [], none⟩, rest) := by
  have hdigits := Text.isDigit_decimalDigits i.natAbs
  have hspan := spanDigits_append hdigits h
  have hwhole := isWholePart_decimalDigits i.natAbs
  have hfraction := fractionAt?_of_endsNumeral h
  have hexponent := exponentAt?_of_endsNumeral h
  by_cases hnegative : i < 0
  · rw [Text.integerChars, if_pos hnegative, List.cons_append]
    unfold at? guard
    simp [hspan, hwhole, hfraction, hexponent, hnegative]
  · obtain ⟨c, digits, heq⟩ := List.exists_cons_of_ne_nil (Text.decimalDigits_ne_nil i.natAbs)
    have hc : c ≠ '-' := by
      rintro rfl
      exact absurd (hdigits '-' (heq ▸ List.mem_cons_self)) (by decide)
    rw [Text.integerChars, if_neg hnegative]
    rw [heq] at hspan hwhole ⊢
    simp only [List.cons_append] at hspan ⊢
    unfold at? guard
    simp [hc, hspan, hwhole, hfraction, hexponent, hnegative]

/-- A whole number that fits in 64 bits is the number that its numeral names. -/
theorem int?_decimalDigits {i : Int} (hlow : -2 ^ 63 ≤ i) (hhigh : i < 2 ^ 64) :
    int? ⟨decide (i < 0), Text.decimalDigits i.natAbs, [], none⟩ = some i := by
  have hpow : Nat.pow 2 63 = 2 ^ 63 ∧ Nat.pow 2 64 = 2 ^ 64 := ⟨rfl, rfl⟩
  simp only [int?, Text.ofDecimalDigits_decimalDigits, List.isEmpty_nil, Bool.not_true,
    Option.isSome_none, Bool.or_self, Bool.false_eq_true, if_false, decide_eq_true_eq, hpow]
  split
  · rw [if_pos (by omega)]
    congr 1
    omega
  · rw [if_pos (by omega)]
    congr 1
    omega

end Numeral

end Json

end PosterOverlay
