import Mathlib.Data.List.Infix
import Mathlib.Data.List.TakeWhile
import PosterOverlay.Text.Blank
import PosterOverlay.Text.Separator

/-!
# What splitting and trimming leave of a text

A text is split at the first occurrence of a separator: put together again, the parts are the text,
and the separator does not occur in the part before it. Split at every occurrence, texts that are
joined by a separator fall into the pieces of the single texts. An ending comes off a text exactly
when the text closes with it. Trimming leaves a stretch of the text.
-/

namespace PosterOverlay.Text

variable {separator text front tail : List Char}

/-- A text opens with a separator exactly when it is the separator with something behind it. -/
theorem after?_eq_some_iff : after? separator text = some tail ↔ separator ++ tail = text :=
  List.isPrefixOf?_eq_some_iff_append_eq

/-- A text that does not open with a separator does not begin with it. -/
theorem not_prefix_of_after? (h : after? separator text = none) : ¬ separator <+: text := by
  rintro ⟨tail, htail⟩
  rw [after?_eq_some_iff.mpr htail] at h
  cases h

/-- A text is not split exactly when the separator does not occur in it. -/
theorem splitOnce?_eq_none_iff (hseparator : separator ≠ []) :
    splitOnce? separator text = none ↔ ¬ separator <:+: text := by
  induction text with
  | nil => simpa [splitOnce?] using hseparator
  | cons c rest ih =>
    rw [splitOnce?, List.infix_cons_iff]
    cases hopen : after? separator (c :: rest) with
    | some found =>
      have hbegins : separator <+: c :: rest := ⟨found, after?_eq_some_iff.mp hopen⟩
      simp [hbegins]
    | none => simp [not_prefix_of_after? hopen, ih]

/-- The parts of a text with the separator between them are the text. -/
theorem append_of_splitOnce? (h : splitOnce? separator text = some (front, tail)) :
    front ++ (separator ++ tail) = text := by
  induction text generalizing front with
  | nil => cases h
  | cons c rest ih =>
    rw [splitOnce?] at h
    split at h
    · rename_i found hopen
      cases h
      rw [List.nil_append, after?_eq_some_iff.mp hopen]
    · obtain ⟨⟨front', tail'⟩, hrest, heq⟩ := Option.map_eq_some_iff.mp h
      cases heq
      rw [List.cons_append, ih hrest]

/-- The separator does not occur in the part before it. The text is split where it occurs first, so
an occurrence in the front would have been met earlier. -/
theorem not_infix_of_splitOnce? (hseparator : separator ≠ [])
    (h : splitOnce? separator text = some (front, tail)) : ¬ separator <:+: front := by
  induction text generalizing front with
  | nil => cases h
  | cons c rest ih =>
    rw [splitOnce?] at h
    split at h
    · cases h
      simpa using hseparator
    · rename_i hopen
      obtain ⟨⟨front', tail'⟩, hrest, heq⟩ := Option.map_eq_some_iff.mp h
      cases heq
      have hfront : c :: front' <+: c :: rest :=
        List.cons_prefix_cons.mpr ⟨rfl, _, append_of_splitOnce? hrest⟩
      rw [List.infix_cons_iff, not_or]
      exact ⟨fun hbegins => not_prefix_of_after? hopen (hbegins.trans hfront), ih hrest⟩

/-- At a single character a text is split before the first occurrence. -/
theorem splitOnce?_singleton (c : Char) (text : List Char) :
    splitOnce? [c] text = if c ∈ text
      then some (text.takeWhile (· != c), (text.dropWhile (· != c)).tail) else none := by
  induction text with
  | nil => rfl
  | cons d text ih =>
    rw [splitOnce?, after?_cons_cons, after?_nil, ih]
    by_cases hd : c = d
    · simp [hd]
    · by_cases hc : c ∈ text <;> simp [hd, Ne.symm hd, hc]

/-! ### All pieces -/

/-- A separator that follows a part of the text and does not occur in this part does not begin in it
either, if its first character does not come again in it: it would have to end within the separator
that follows. -/
theorem after?_append_eq_none {c d : Char} {rest : List Char} (hc : c ∉ rest)
    (hfront : ¬ c :: rest <+: d :: front) (tail : List Char) :
    after? (c :: rest) (d :: front ++ (c :: rest ++ tail)) = none := by
  rw [Option.eq_none_iff_forall_ne_some]
  intro behind hbehind
  rw [after?_eq_some_iff] at hbehind
  rcases List.prefix_or_prefix_of_prefix ⟨behind, hbehind⟩ (List.prefix_append (d :: front) _)
    with hwithin | ⟨middle, hmiddle⟩
  · exact hfront hwithin
  · rw [← hmiddle, List.append_assoc, List.append_cancel_left_eq] at hbehind
    rw [List.cons_append, List.cons.injEq] at hmiddle
    obtain ⟨rfl, rfl⟩ := hmiddle
    cases middle with
    | nil => exact hfront (by simp)
    | cons first middle =>
      rw [List.cons_append, List.cons_append, List.cons_append, List.cons.injEq] at hbehind
      exact hc (by simp [hbehind.1])

/-- A text is split where the separator follows a part that does not hold it, if the first character
of the separator does not come again in it. -/
theorem splitOnce?_append {c : Char} {rest : List Char} (hc : c ∉ rest)
    (hfront : ¬ c :: rest <:+: front) (tail : List Char) :
    splitOnce? (c :: rest) (front ++ (c :: rest ++ tail)) = some (front, tail) := by
  induction front with
  | nil =>
    rw [List.nil_append, List.cons_append, splitOnce?, ← List.cons_append,
      after?_eq_some_iff.mpr rfl]
  | cons d front ih =>
    rw [List.infix_cons_iff, not_or] at hfront
    rw [List.cons_append, splitOnce?, ← List.cons_append, after?_append_eq_none hc hfront.1,
      ih hfront.2]
    rfl

theorem splitAll_of_splitOnce? (hseparator : separator ≠ [])
    (h : splitOnce? separator text = some (front, tail)) :
    splitAll separator text = front :: splitAll separator tail := by
  rw [splitAll, dif_neg hseparator]
  split
  · rename_i heq
    rw [h] at heq
    cases heq
  · rename_i heq
    rw [h] at heq
    cases heq
    rfl

/-- A text in which the separator does not occur is in one piece. -/
theorem splitAll_of_not_infix (hseparator : separator ≠ []) (h : ¬ separator <:+: text) :
    splitAll separator text = [text] := by
  rw [splitAll, dif_neg hseparator]
  split
  · rfl
  · rename_i heq
    rw [(splitOnce?_eq_none_iff hseparator).mpr h] at heq
    cases heq

/-- The separator occurs in no piece. -/
theorem not_infix_of_mem_splitAll (hseparator : separator ≠ []) {piece : List Char}
    (h : piece ∈ splitAll separator text) : ¬ separator <:+: piece := by
  fun_induction splitAll separator text with
  | case1 text heq => exact absurd heq hseparator
  | case2 text _ hnone =>
    rw [List.mem_singleton.mp h]
    exact (splitOnce?_eq_none_iff hseparator).mp hnone
  | case3 text _ front tail hsome ih =>
    rcases List.mem_cons.mp h with rfl | hmem
    · exact not_infix_of_splitOnce? hseparator hsome
    · exact ih hmem

/-- The pieces of two texts with the separator between them are those of the first and those of the
second, if the first character of the separator does not come again in it. The induction cuts one
piece after another off the first text. -/
theorem splitAll_append {c : Char} {rest : List Char} (hc : c ∉ rest) (front tail : List Char) :
    splitAll (c :: rest) (front ++ (c :: rest ++ tail)) =
      splitAll (c :: rest) front ++ splitAll (c :: rest) tail := by
  have hseparator : c :: rest ≠ [] := List.cons_ne_nil c rest
  fun_induction splitAll (c :: rest) front with
  | case1 front heq => exact absurd heq hseparator
  | case2 front _ hnone =>
    have hfront := (splitOnce?_eq_none_iff hseparator).mp hnone
    rw [splitAll_of_splitOnce? hseparator (splitOnce?_append hc hfront tail), List.singleton_append]
  | case3 front _ first later hsome ih =>
    have hfirst := not_infix_of_splitOnce? hseparator hsome
    have hwhole : front ++ (c :: rest ++ tail) =
        first ++ (c :: rest ++ (later ++ (c :: rest ++ tail))) := by
      rw [← append_of_splitOnce? hsome]
      simp
    rw [hwhole, splitAll_of_splitOnce? hseparator (splitOnce?_append hc hfirst _), ih,
      List.cons_append]

/-- Texts joined by a separator have the pieces of the single texts, if the first character of the
separator does not come again in it. -/
theorem pieces_joined {separator : String} {c : Char} {rest : List Char}
    (hseparator : separator.toList = c :: rest) (hc : c ∉ rest) {texts : List String}
    (hne : texts ≠ []) :
    pieces separator (joined separator texts) = texts.flatMap (pieces separator) := by
  fun_induction joined separator texts with
  | case1 => exact absurd rfl hne
  | case2 text => simp
  | case3 text texts hsingle ih =>
    have hsplit := splitAll_append hc text.toList (joined separator texts).toList
    have htexts : texts ≠ [] := hsingle
    rw [List.flatMap_cons, ← ih htexts, pieces, pieces, pieces, String.toList_append,
      String.toList_append, hseparator, List.append_assoc, hsplit, List.map_append]

/-! ### Endings -/

/-- A text closes with an ending exactly when it is the ending with something before it. -/
theorem before?_eq_some_iff {ending text front : List Char} :
    before? ending text = some front ↔ front ++ ending = text := by
  simp only [before?, Option.map_eq_some_iff, List.isPrefixOf?_eq_some_iff_append_eq]
  constructor
  · rintro ⟨tail, htail, rfl⟩
    rw [← List.reverse_inj, List.reverse_append, List.reverse_reverse, htail]
  · rintro rfl
    exact ⟨front.reverse, by rw [List.reverse_append], List.reverse_reverse _⟩

/-- An ending comes off the name that it was put behind. -/
theorem stripEnd?_append (text ending : String) :
    stripEnd? (text ++ ending) ending = some text := by
  rw [stripEnd?, before?_eq_some_iff.mpr String.toList_append.symm, Option.map_some,
    String.ofList_toList]

/-- A text that closes with a letter does not close with an ending that has another last letter. -/
theorem stripEnd?_append_of_getLast? {ending other : String} {c d : Char}
    (hc : ending.toList.getLast? = some c) (hd : other.toList.getLast? = some d) (hne : c ≠ d)
    (text : String) : stripEnd? (text ++ ending) other = none := by
  rw [stripEnd?, Option.map_eq_none_iff, Option.eq_none_iff_forall_ne_some]
  intro front hfront
  rw [before?_eq_some_iff, String.toList_append] at hfront
  have hlast := congrArg List.getLast? hfront
  rw [List.getLast?_append, List.getLast?_append, hc, hd, Option.some_or, Option.some_or] at hlast
  exact hne (Option.some.inj hlast).symm

/-- No ending comes off a text that does not close with it. -/
theorem stripEnd?_of_closesWith {text ending : String} (h : closesWith text ending = false) :
    stripEnd? text ending = none := by
  rw [closesWith, Option.isSome_eq_false_iff, Option.isNone_iff_eq_none] at h
  rw [stripEnd?, h, Option.map_none]

/-! ### Trimming -/

/-- Nothing is dropped from the front of a text that starts with a character to keep. -/
theorem trimFront_eq_self {text : List Char} (h : ∀ c ∈ text.head?, isBlank c = false) :
    trimFront text = text := by
  cases text with
  | nil => rfl
  | cons c text => simp [trimFront, h c rfl]

/-- What is left after blanks are dropped from the front starts with no blank. -/
theorem head?_trimFront {text : List Char} {c : Char} (h : c ∈ (trimFront text).head?) :
    isBlank c = false := by
  have hfirst := List.head?_dropWhile_not isBlank text
  rw [trimFront] at h
  rwa [h] at hfirst

/-- Dropping blanks from the front once is enough. -/
theorem trimFront_trimFront (text : List Char) : trimFront (trimFront text) = trimFront text :=
  trimFront_eq_self fun _ => head?_trimFront

/-- Trimming drops blanks from the front, and then some from the back. -/
theorem trimChars_prefix_trimFront (text : List Char) : trimChars text <+: trimFront text := by
  rw [← List.reverse_suffix, trimChars, List.reverse_reverse]
  exact List.dropWhile_suffix isBlank

/-- Trimming leaves a stretch of the text. -/
theorem trimChars_infix (text : List Char) : trimChars text <:+: text :=
  (trimChars_prefix_trimFront text).isInfix.trans (List.dropWhile_suffix isBlank).isInfix

/-- Trimming leaves nothing exactly of blanks. -/
theorem trimChars_eq_nil_iff {text : List Char} :
    trimChars text = [] ↔ text.all isBlank = true := by
  have hfront (text : List Char) : trimFront text = [] ↔ ∀ c ∈ text, isBlank c = true :=
    List.dropWhile_eq_nil_iff
  rw [trimChars, List.reverse_eq_nil_iff, hfront, List.all_eq_true]
  constructor
  · intro hblank
    -- What is left after the front starts with no blank, so it must be nothing.
    cases hleft : trimFront text with
    | nil => exact (hfront text).mp hleft
    | cons c rest =>
      have hfirst : c ∈ (trimFront text).head? := by
        rw [hleft]
        rfl
      have hc := head?_trimFront hfirst
      rw [hblank c (by simp [hleft])] at hc
      cases hc
  · intro hblank c hc
    rw [(hfront text).mpr hblank] at hc
    cases hc

/-- Trimming twice is trimming once. -/
theorem trim_trim (text : String) : trim (trim text) = trim text := by
  have hchars (chars : List Char) : trimChars (trimChars chars) = trimChars chars := by
    -- What is left starts where the front starts, so with no blank.
    have hfront : trimFront (trimChars chars) = trimChars chars := by
      refine trimFront_eq_self fun c hc => ?_
      obtain ⟨rest, hrest⟩ := trimChars_prefix_trimFront chars
      have hfirst : c ∈ (trimFront chars).head? := by
        rw [← hrest, List.head?_append, Option.mem_def.mp hc]
        rfl
      exact head?_trimFront hfirst
    rw [trimChars, hfront, trimChars, List.reverse_reverse, trimFront_trimFront]
  rw [trim, trim, String.toList_ofList, hchars]

end PosterOverlay.Text
