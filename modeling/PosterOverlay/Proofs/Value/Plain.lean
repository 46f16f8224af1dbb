import PosterOverlay.Proofs.Placeholder.Nesting

/-!
# Truth values and numbers in text

Truth values and numbers are written without angle brackets, so no placeholder ever comes out of
them. Only texts, and what holds texts, can bring one in.
-/

namespace PosterOverlay

open Placeholder (isNameChar IsPlain)

namespace Text

/-- The decimal digits of a number are plain. -/
theorem isNameChar_decimalDigits (n : Nat) : ∀ c ∈ decimalDigits n, isNameChar c = true :=
  forall_mem_decimalDigits (by decide) n

/-- The text of an integer is plain. -/
theorem isNameChar_integerChars (i : Int) : ∀ c ∈ integerChars i, isNameChar c = true := by
  have hdigits := isNameChar_decimalDigits i.natAbs
  unfold integerChars
  split
  · exact List.forall_mem_cons.mpr ⟨by decide, hdigits⟩
  · exact hdigits

end Text

namespace FloatNotation

/-- Zeros are plain. -/
theorem isNameChar_zeros (count : Nat) : ∀ c ∈ zeros count, isNameChar c = true := by
  intro c hc
  rw [List.eq_of_mem_replicate hc]
  decide

/-- The text of a positive decimal is plain if what precedes a positive exponent is. -/
theorem isNameChar_ofDecimal {style : FloatNotation} (hplus : IsPlain style.plus) (d : Decimal) :
    ∀ c ∈ style.ofDecimal d, isNameChar c = true := by
  have hdigits := Text.isNameChar_decimalDigits d.digits
  unfold ofDecimal
  dsimp only
  generalize Text.decimalDigits d.digits = digits at hdigits ⊢
  split
  · simp only [List.forall_mem_append, List.forall_mem_cons]
    exact ⟨⟨hdigits, isNameChar_zeros _⟩, by decide, by decide, by simp⟩
  · split
    · simp only [List.forall_mem_append, List.forall_mem_cons]
      exact ⟨fun c hc => hdigits c (List.mem_of_mem_take hc), by decide,
        fun c hc => hdigits c (List.mem_of_mem_drop hc)⟩
    · split
      · simp only [List.forall_mem_append, List.forall_mem_cons, List.cons_append]
        exact ⟨by decide, by decide, isNameChar_zeros _, hdigits⟩
      · simp only [List.forall_mem_append, List.forall_mem_cons]
        refine ⟨⟨?_, by decide, ?_⟩, Text.isNameChar_integerChars _⟩
        · split
          · simp only [List.forall_mem_cons] at hdigits ⊢
            exact ⟨hdigits.1, by decide, hdigits.2⟩
          · exact hdigits
        · split
          · exact hplus
          · simp

/-- The text of a double is plain. -/
theorem isNameChar_write_plain (x : Float) : ∀ c ∈ plain.write x, isNameChar c = true := by
  have hsign : ∀ c ∈ (if Binary64.isNegative x then ['-'] else []), isNameChar c = true := by
    split <;> exact List.all_eq_true.mp (by decide)
  unfold write
  split
  · exact List.all_eq_true.mp (by decide)
  · split
    · split <;> exact List.all_eq_true.mp (by decide)
    · dsimp only
      split
      · exact List.forall_mem_append.mpr ⟨hsign, List.all_eq_true.mp (by decide)⟩
      · exact List.forall_mem_append.mpr ⟨hsign, isNameChar_ofDecimal (by decide) _⟩

end FloatNotation

namespace Value

/-- A value that is read as a text is that text. -/
theorem string?_eq_some_iff {value : Value} {s : String} :
    value.string? = some s ↔ value = .string s := by
  cases value <;> simp [string?]

/-- Only texts, sequences and mappings can have angle brackets in their texts. -/
theorem isPlain_text {value : Value} (hstring : value.string? = none)
    (hsequence : value.sequence? = none) (hmapping : value.mapping? = none) :
    IsPlain value.text := by
  cases value with
  | null => decide
  | bool b => cases b <;> decide
  | int i => simpa [IsPlain, text, Text.integer] using Text.isNameChar_integerChars i
  | float x => simpa [IsPlain, text] using FloatNotation.isNameChar_write_plain x
  | string s => cases hstring
  | sequence items => cases hsequence
  | mapping fields => cases hmapping

end Value

end PosterOverlay
