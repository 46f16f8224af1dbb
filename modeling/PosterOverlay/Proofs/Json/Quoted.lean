import PosterOverlay.Json.Reading
import PosterOverlay.Json.Writer

/-!
# Quoted texts

Every character can be read back from its escaped form, and no escaped form contains the closing
quote. So a quoted text is recovered from any text that begins with it, together with what
follows.
-/

namespace PosterOverlay.Json

theorem textAfter_quote (done rest : List Char) :
    textAfter done ('"' :: rest) = some (String.ofList done.reverse, rest) := by
  rw [textAfter]

theorem textAfter_escape {text tail : List Char} {c : Char} (h : escape? text = some (c, tail))
    (done : List Char) : textAfter done ('\\' :: text) = textAfter (c :: done) tail := by
  rw [textAfter]
  split
  · rename_i found rest hfound
    rw [h] at hfound
    cases hfound
    rfl
  · rename_i hnone
    rw [h] at hnone
    cases hnone

theorem textAfter_letter {c : Char} (hquote : c ≠ '"') (hslash : c ≠ '\\') (hcode : ¬c.toNat < 32)
    (done rest : List Char) : textAfter done (c :: rest) = textAfter (c :: done) rest := by
  rw [textAfter.eq_def]
  split
  · contradiction
  · rename_i heq
    cases heq
    exact absurd rfl hquote
  · rename_i heq
    cases heq
    exact absurd rfl hslash
  · rename_i heq
    cases heq
    rw [if_neg hcode]

/-- A control character can be read back from its number. -/
theorem numbered?_hexadecimal {c : Char} (h : c.toNat < 32) (rest : List Char) :
    numbered? (Text.hexadecimal 4 c.toNat ++ rest) = some (c, rest) := by
  have hdigits : ∀ n < 32, Text.ofDigits? 16 (Text.hexadecimal 4 n) = some n := by decide
  have hunit : unit? (Text.hexadecimal 4 c.toNat ++ rest) = some (c.toNat, rest) :=
    congrArg (Option.map fun unit => (unit, rest)) (hdigits c.toNat h)
  have hsecond : isSecondHalf c.toNat = false := by
    simp only [isSecondHalf, Bool.and_eq_false_iff, decide_eq_false_iff_not]
    omega
  have hfirst : isFirstHalf c.toNat = false := by
    simp only [isFirstHalf, Bool.and_eq_false_iff, decide_eq_false_iff_not]
    omega
  simp only [numbered?, hunit, hsecond, hfirst, Bool.false_eq_true, if_false, Char.ofNat_toNat]

/-- A short escape is read by its letter, which must not announce a number. -/
theorem escape?_of_shortEscape? {letter c : Char} (h : shortEscape? letter = some c)
    (hu : letter ≠ 'u') (rest : List Char) : escape? (letter :: rest) = some (c, rest) := by
  unfold escape?
  split
  · rename_i heq
    cases heq
    exact absurd rfl hu
  · rename_i heq
    cases heq
    rw [h, Option.map_some]
  · contradiction

/-- A character is read back from its escaped form. -/
theorem textAfter_escapeChar (done : List Char) (c : Char) (rest : List Char) :
    textAfter done (escapeChar c ++ rest) = textAfter (c :: done) rest := by
  have hshort {letter : Char} (hletter : shortEscape? letter = some c) (hu : letter ≠ 'u') :
      textAfter done (['\\', letter] ++ rest) = textAfter (c :: done) rest :=
    textAfter_escape (escape?_of_shortEscape? hletter hu rest) done
  have hcode {code : Nat} (hc : c.toNat = code) : c = Char.ofNat code := by
    rw [← hc, Char.ofNat_toNat]
  unfold escapeChar
  split
  · exact hshort (by subst c; rfl) (by decide)
  split
  · exact hshort (by subst c; rfl) (by decide)
  split
  · exact hshort (by subst c; rfl) (by decide)
  split
  · exact hshort (by subst c; rfl) (by decide)
  split
  · exact hshort (by subst c; rfl) (by decide)
  split
  · rename_i h
    exact hshort (congrArg some (hcode h).symm) (by decide)
  split
  · rename_i h
    exact hshort (congrArg some (hcode h).symm) (by decide)
  split
  · rename_i h
    have hread : escape? ('u' :: (Text.hexadecimal 4 c.toNat ++ rest)) = some (c, rest) :=
      numbered?_hexadecimal h rest
    exact textAfter_escape hread done
  · rename_i hquote hslash _ _ _ _ _ h
    exact textAfter_letter hquote hslash h done rest

/-- An escaped text is read back up to its closing quote. -/
theorem textAfter_flatMap_escapeChar (done text rest : List Char) :
    textAfter done (text.flatMap escapeChar ++ '"' :: rest) =
      some (String.ofList (done.reverse ++ text), rest) := by
  induction text generalizing done with
  | nil => simp [textAfter_quote]
  | cons c text ih =>
    rw [List.flatMap_cons, List.append_assoc, textAfter_escapeChar, ih]
    simp

/-- A quoted text and what follows it are recovered from the whole. -/
theorem quoted_append_inj {s s' : String} {rest rest' : List Char}
    (h : quoted s ++ rest = quoted s' ++ rest') : s = s' ∧ rest = rest' := by
  have hread (s : String) (rest : List Char) :
      textAfter [] ((quoted s ++ rest).tail) = some (s, rest) := by
    simpa [quoted] using textAfter_flatMap_escapeChar [] s.toList rest
  have hboth := hread s rest
  rw [h, hread s' rest'] at hboth
  simpa [eq_comm] using hboth

end PosterOverlay.Json
