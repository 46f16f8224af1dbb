import PosterOverlay.Json.Reading
import PosterOverlay.Proofs.Value.Distinct

/-!
# What JSON texts read as

Whatever is read binds no name twice: the reader refuses a mapping that would. So the variables in a
JSON object are told apart by their names.
-/

namespace PosterOverlay.Json

section

variable {α : Type} {item : Reader α} {closing : Char} {P : α → Prop}

/-- What holds of every item that can be read holds of those read before and of all later ones. -/
theorem forall_mem_of_itemsAfter
    (hitem : ∀ text value rest, item text = some (value, rest) → P value)
    {rounds : List Char} {done : List α} (hdone : ∀ value ∈ done, P value) {text rest : List Char}
    {values : List α} (h : itemsAfter item closing rounds done text = some (values, rest)) :
    ∀ value ∈ values, P value := by
  induction rounds generalizing done text with
  | nil => cases h
  | cons round rounds ih =>
    rw [itemsAfter] at h
    split at h
    · cases h
    · rename_i first tail hfirst
      have hdone' : ∀ value ∈ first :: done, P value :=
        List.forall_mem_cons.mpr ⟨hitem _ _ _ hfirst, hdone⟩
      split at h
      · cases h
      · split at h
        · exact ih hdone' h
        · split at h
          · cases h
            exact fun value hvalue => hdone' value (List.mem_reverse.mp hvalue)
          · cases h

/-- What holds of every item that can be read holds of all items of a row. -/
theorem forall_mem_of_items
    (hitem : ∀ text value rest, item text = some (value, rest) → P value)
    {text rest : List Char} {values : List α}
    (h : items item closing text = some (values, rest)) : ∀ value ∈ values, P value := by
  unfold items at h
  split at h
  · cases h
  · split at h
    · cases h
      exact List.forall_mem_nil P
    · exact forall_mem_of_itemsAfter hitem (List.forall_mem_nil P) h

end

/-- A field holds a value that was read. -/
theorem exists_of_field {reader : Reader Value} {text rest : List Char} {entry : String × Value}
    (h : field reader text = some (entry, rest)) :
    ∃ text rest, reader text = some (entry.2, rest) := by
  unfold field at h
  split at h
  · split at h
    · cases h
    · split at h
      · obtain ⟨⟨value, tail⟩, hvalue, heq⟩ := Option.map_eq_some_iff.mp h
        cases heq
        exact ⟨_, _, hvalue⟩
      · cases h
  · cases h

/-- The reader reads values that bind no name twice. -/
def YieldsDistinct (reader : Reader Value) : Prop :=
  ∀ text value rest, reader text = some (value, rest) → value.Distinct

/-- A numeral is a value without inner ones. -/
theorem yieldsDistinct_number : YieldsDistinct number := by
  intro text value rest h
  obtain ⟨⟨numeral, tail⟩, _, h⟩ := Option.bind_eq_some_iff.mp h
  obtain ⟨found, hfound, heq⟩ := Option.map_eq_some_iff.mp h
  cases heq
  unfold Numeral.value? at hfound
  split at hfound
  · cases hfound
    trivial
  · obtain ⟨x, _, rfl⟩ := Option.map_eq_some_iff.mp hfound
    trivial

/-- Values around others bind no name twice if these do not. -/
theorem yieldsDistinct_valueWith {inside? : Option (Reader Value)}
    (hinside : ∀ inside ∈ inside?, YieldsDistinct inside) :
    YieldsDistinct (valueWith inside?) := by
  intro text value rest h
  unfold valueWith at h
  split at h
  case h_7 => exact yieldsDistinct_number _ _ _ h
  case h_4 =>
    obtain ⟨_, _, heq⟩ := Option.map_eq_some_iff.mp h
    cases heq
    trivial
  case h_5 =>
    obtain ⟨inside, hsome, h⟩ := Option.bind_eq_some_iff.mp h
    obtain ⟨⟨values, tail⟩, hitems, heq⟩ := Option.map_eq_some_iff.mp h
    cases heq
    exact Value.distinct_sequence_iff.mpr (forall_mem_of_items (hinside inside hsome) hitems)
  case h_6 =>
    obtain ⟨inside, hsome, h⟩ := Option.bind_eq_some_iff.mp h
    obtain ⟨⟨fields, tail⟩, hitems, h⟩ := Option.bind_eq_some_iff.mp h
    have hfield (text : List Char) (entry : String × Value) (rest : List Char)
        (hentry : field inside text = some (entry, rest)) : entry.2.Distinct := by
      obtain ⟨text, rest, hvalue⟩ := exists_of_field hentry
      exact hinside inside hsome text entry.2 rest hvalue
    have hfields := forall_mem_of_items hfield hitems
    dsimp only at h
    split at h
    · rename_i hnodup
      cases h
      exact Value.distinct_mapping_iff.mpr ⟨hnodup, hfields⟩
    · cases h
  all_goals
    cases h
    trivial

/-- However deep the reader goes, no name is bound twice. -/
theorem yieldsDistinct_valueAt (depth : Nat) : YieldsDistinct (valueAt depth) := by
  induction depth with
  | zero =>
    refine yieldsDistinct_valueWith fun inside hinside => ?_
    cases hinside
  | succ depth ih =>
    refine yieldsDistinct_valueWith fun inside hinside => ?_
    cases hinside
    exact ih

/-- A value read from a JSON text binds no name twice. -/
theorem distinct_of_read? {text : String} {value : Value} (h : read? text = some value) :
    value.Distinct := by
  unfold read? at h
  split at h
  · rename_i found rest hfound
    split at h
    · cases h
      exact yieldsDistinct_valueAt maxDepth _ _ _ hfound
    · cases h
  · cases h

end PosterOverlay.Json
