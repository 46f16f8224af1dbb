import Mathlib.Data.List.DropRight
import PosterOverlay.Json.Reading
import PosterOverlay.Proofs.Json.Numerals
import PosterOverlay.Proofs.Json.Quoted

/-!
# Rows of items in JSON

The items of a sequence and the fields of a mapping are written in a row, with commas between them
and a mark at the end. Whatever blanks stand before the items and before the mark, a reader that
reads each of the items reads the row.
-/

namespace PosterOverlay.Json

theorem isSpace_iff {c : Char} :
    isSpace c = true ↔ c = ' ' ∨ c = '\n' ∨ c = '\t' ∨ c = '\r' := by
  simp only [isSpace, Bool.or_eq_true, beq_iff_eq, or_assoc]

/-- Nothing but blanks. -/
def IsGap (text : List Char) : Prop :=
  ∀ c ∈ text, isSpace c = true

/-- Blanks at the front are skipped. -/
theorem skipSpaces_append {gap : List Char} (h : IsGap gap) (text : List Char) :
    skipSpaces (gap ++ text) = skipSpaces text :=
  List.dropWhile_append_of_pos h

/-- A text that starts with no blank is left as it is. -/
theorem skipSpaces_cons {c : Char} (h : isSpace c = false) (text : List Char) :
    skipSpaces (c :: text) = c :: text :=
  List.dropWhile_cons_of_neg (by simp [h])

/-- Blanks at the front are skipped once. -/
theorem skipSpaces_skipSpaces (text : List Char) :
    skipSpaces (skipSpaces text) = skipSpaces text :=
  List.dropWhile_idempotent isSpace text

/-- The marks that close a row. -/
def IsClosing (c : Char) : Prop :=
  c = ']' ∨ c = '\x7d'

instance (c : Char) : Decidable (IsClosing c) :=
  inferInstanceAs (Decidable (_ ∨ _))

/-- A text may stand as an item if it opens neither with a blank nor with a mark that closes the
row. -/
def OpensItem (text : List Char) : Prop :=
  ∃ c ∈ text.head?, isSpace c = false ∧ ¬ IsClosing c

/-- What follows an item in its row, up to the closing mark: the later items, each after a comma. -/
def rowAfter (before behind : List Char) (closing : Char) : List (List Char) → List Char
  | [] => behind ++ [closing]
  | text :: rest => ',' :: before ++ text ++ rowAfter before behind closing rest

/-- Texts in a row, up to the closing mark. There is a gap before each of them, and one behind the
last. -/
def row (before behind : List Char) (closing : Char) : List (List Char) → List Char
  | [] => [closing]
  | text :: rest => before ++ text ++ rowAfter before behind closing rest

/-- Blanks at the front make no difference to the reader. -/
def SkipsSpaces {α : Type} (reader : Reader α) : Prop :=
  ∀ text, reader (skipSpaces text) = reader text

/-- The reader reads the value off every text that begins with the written one, unless a numeral
could go on. -/
structure Reads {α : Type} (reader : Reader α) (value : α) (text : List Char) : Prop where
  /-- The text may stand as an item. -/
  opens : OpensItem text
  /-- The value is read, and what follows is left. -/
  reads : ∀ rest, EndsNumeral rest → reader (text ++ rest) = some (value, rest)

theorem SkipsSpaces.append {α : Type} {reader : Reader α} (h : SkipsSpaces reader)
    {gap : List Char} (hgap : IsGap gap) (text : List Char) :
    reader (gap ++ text) = reader text := by
  rw [← h, skipSpaces_append hgap, h]

section

variable {α : Type} {item : Reader α} {write : α → List Char}
variable {before behind : List Char} {closing : Char}

/-- A closing mark ends every numeral, and so do the blanks before it. -/
theorem endsNumeral_rowAfter (before : List Char) (hbehind : IsGap behind)
    (hclosing : IsClosing closing) (texts : List (List Char)) (tail : List Char) :
    EndsNumeral (rowAfter before behind closing texts ++ tail) := by
  have hspace (c : Char) (hc : isSpace c = true) :
      c.isDigit = false ∧ c ≠ '.' ∧ c ≠ 'e' ∧ c ≠ 'E' := by
    rcases isSpace_iff.mp hc with rfl | rfl | rfl | rfl <;> decide
  intro c hc
  cases texts with
  | nil =>
    rw [rowAfter] at hc
    cases behind with
    | nil =>
      cases hc
      rcases hclosing with rfl | rfl <;> decide
    | cons space behind =>
      cases hc
      exact hspace _ (hbehind _ List.mem_cons_self)
  | cons text texts =>
    cases hc
    decide

/-- A row is read from its first item on, after other items that have been read. The induction is on
the later items; blanks may precede the first one. -/
theorem itemsAfter_row (hitem : SkipsSpaces item) (hbefore : IsGap before)
    (hbehind : IsGap behind) (hclosing : IsClosing closing) {first : α} {rest : List α}
    (hreads : ∀ value ∈ first :: rest, Reads item value (write value))
    {rounds : List Char} (hrounds : rest.length < rounds.length) (done : List α)
    {lead : List Char} (hlead : IsGap lead) (tail : List Char) :
    itemsAfter item closing rounds done
        (lead ++ (write first ++ (rowAfter before behind closing (rest.map write) ++ tail))) =
      some (done.reverse ++ first :: rest, tail) := by
  have hmarks : isSpace closing = false ∧ (closing == ',') = false := by
    rcases hclosing with rfl | rfl <;> decide
  induction rest generalizing first rounds done lead with
  | nil =>
    obtain ⟨round, rounds, rfl⟩ := List.exists_cons_of_length_pos (Nat.zero_lt_of_lt hrounds)
    have hfirst := (hreads first List.mem_cons_self).reads _
      (endsNumeral_rowAfter before hbehind hclosing [] tail)
    have hbehind' : skipSpaces (rowAfter before behind closing [] ++ tail) = closing :: tail := by
      rw [rowAfter, List.append_assoc, skipSpaces_append hbehind]
      exact skipSpaces_cons hmarks.1 tail
    rw [itemsAfter, hitem.append hlead, List.map_nil, hfirst]
    dsimp only
    rw [hbehind']
    simp [hmarks.2]
  | cons second rest ih =>
    obtain ⟨round, rounds, rfl⟩ := List.exists_cons_of_length_pos (Nat.zero_lt_of_lt hrounds)
    obtain ⟨hfirst, hlater⟩ := List.forall_mem_cons.mp hreads
    have hfirst := hfirst.reads _
      (endsNumeral_rowAfter before hbehind hclosing ((second :: rest).map write) tail)
    have hnext := ih hlater (Nat.lt_of_succ_lt_succ hrounds) (first :: done) hbefore
    have hcomma : skipSpaces (rowAfter before behind closing ((second :: rest).map write) ++
        tail) = ',' :: (before ++ (write second ++ (rowAfter before behind closing
          (rest.map write) ++ tail))) := by
      rw [List.map_cons, rowAfter, List.cons_append, List.cons_append, List.cons_append,
        skipSpaces_cons (by decide)]
      simp
    rw [itemsAfter, hitem.append hlead, hfirst]
    dsimp only
    rw [hcomma]
    dsimp only
    rw [if_pos (by decide), hnext]
    simp

/-- There is a character in a row for each of its later items, and one more. -/
theorem length_lt_length_rowAfter (before behind : List Char) (closing : Char)
    (texts : List (List Char)) :
    texts.length < (rowAfter before behind closing texts).length := by
  induction texts with
  | nil => simp [rowAfter]
  | cons text texts ih =>
    simp only [rowAfter, List.length_cons, List.length_append]
    omega

/-- A row is read item by item. -/
theorem items_row (hitem : SkipsSpaces item) (hbefore : IsGap before) (hbehind : IsGap behind)
    (hclosing : IsClosing closing) {values : List α}
    (hreads : ∀ value ∈ values, Reads item value (write value)) (tail : List Char) :
    items item closing (row before behind closing (values.map write) ++ tail) =
      some (values, tail) := by
  cases values with
  | nil =>
    have hmark : isSpace closing = false := by
      rcases hclosing with rfl | rfl <;> decide
    rw [List.map_nil, row, List.singleton_append, items, skipSpaces_cons hmark]
    simp
  | cons first rest =>
    obtain ⟨c, hhead, hspace, hopen⟩ := (hreads first List.mem_cons_self).opens
    obtain ⟨text, htext⟩ := List.head?_eq_some_iff.mp hhead
    have hstart : skipSpaces (row before behind closing ((first :: rest).map write) ++ tail) =
        c :: (text ++ (rowAfter before behind closing (rest.map write) ++ tail)) := by
      rw [List.map_cons, row, List.append_assoc, List.append_assoc, skipSpaces_append hbefore,
        htext]
      exact skipSpaces_cons hspace _
    have hne : (c == closing) = false := by
      rw [beq_eq_false_iff_ne]
      rintro rfl
      exact hopen hclosing
    have hrounds : rest.length <
        (row before behind closing ((first :: rest).map write) ++ tail).length := by
      have hlength := length_lt_length_rowAfter before behind closing (rest.map write)
      rw [List.length_map] at hlength
      simp only [List.map_cons, row, List.length_append]
      omega
    -- The blanks before the first item are gone by now.
    have hnothing : IsGap [] := List.forall_mem_nil _
    have hread := itemsAfter_row hitem hbefore hbehind hclosing hreads hrounds [] hnothing tail
    rw [List.nil_append, List.reverse_nil, List.nil_append, htext] at hread
    rw [items, hstart]
    dsimp only
    rw [hne]
    exact hread

end

end PosterOverlay.Json
