import PosterOverlay.Placeholder.Substitution

/-!
# The texts inside a value

A value holds texts at any depth, and its mappings hold names. Resolving a value resolves its texts
one by one and leaves its names as they are, so what a resolved value holds is what its resolved
texts hold.
-/

namespace PosterOverlay

namespace Value

mutual

/-- The texts that a value is made of, at any depth. Names of mappings are no texts. -/
def texts : Value → List String
  | string s => [s]
  | sequence items => itemTexts items
  | mapping fields => fieldTexts fields
  | _ => []

/-- The texts of all items. -/
def itemTexts : List Value → List String
  | [] => []
  | item :: rest => texts item ++ itemTexts rest

/-- The texts of all values of fields. -/
def fieldTexts : List (String × Value) → List String
  | [] => []
  | (_, value) :: rest => texts value ++ fieldTexts rest

end

mutual

/-- The names that mappings inside a value bind, at any depth. -/
def innerNames : Value → List String
  | sequence items => itemNames items
  | mapping fields => fieldNames fields
  | _ => []

/-- The names inside all items. -/
def itemNames : List Value → List String
  | [] => []
  | item :: rest => innerNames item ++ itemNames rest

/-- The names of fields and those inside their values. -/
def fieldNames : List (String × Value) → List String
  | [] => []
  | (name, value) :: rest => name :: innerNames value ++ fieldNames rest

end

end Value

namespace Limits

variable (limits : Limits) (scope : Variables)

mutual

/-- The texts of a resolved value are those of its resolved texts. -/
theorem texts_resolve (value : Value) :
    (limits.resolve scope value).texts =
      value.texts.flatMap fun text => (limits.resolveText scope text).texts := by
  cases value with
  | string s => simp [resolve, Value.texts]
  | sequence items =>
    rw [resolve, Value.texts, Value.texts]
    exact itemTexts_resolveItems items
  | mapping fields =>
    rw [resolve, Value.texts, Value.texts]
    exact fieldTexts_resolveFields fields
  | _ => rfl

theorem itemTexts_resolveItems (items : List Value) :
    Value.itemTexts (limits.resolveItems scope items) =
      (Value.itemTexts items).flatMap fun text => (limits.resolveText scope text).texts := by
  cases items with
  | nil => rfl
  | cons item rest =>
    rw [resolveItems, Value.itemTexts, Value.itemTexts, List.flatMap_append, texts_resolve item,
      itemTexts_resolveItems rest]

theorem fieldTexts_resolveFields (fields : List (String × Value)) :
    Value.fieldTexts (limits.resolveFields scope fields) =
      (Value.fieldTexts fields).flatMap fun text => (limits.resolveText scope text).texts := by
  cases fields with
  | nil => rfl
  | cons field rest =>
    obtain ⟨name, value⟩ := field
    rw [resolveFields, Value.fieldTexts, Value.fieldTexts, List.flatMap_append,
      texts_resolve value, fieldTexts_resolveFields rest]

end

mutual

/-- A name inside a resolved value stood in the value or comes with one of its resolved texts. -/
theorem mem_innerNames_resolve {value : Value} {name : String}
    (h : name ∈ (limits.resolve scope value).innerNames) :
    name ∈ value.innerNames ∨
      ∃ text ∈ value.texts, name ∈ (limits.resolveText scope text).innerNames := by
  cases value with
  | string s => exact .inr ⟨s, List.mem_singleton_self s, h⟩
  | sequence items => exact mem_itemNames_resolveItems h
  | mapping fields => exact mem_fieldNames_resolveFields h
  | _ => exact .inl h

theorem mem_itemNames_resolveItems {items : List Value} {name : String}
    (h : name ∈ Value.itemNames (limits.resolveItems scope items)) :
    name ∈ Value.itemNames items ∨
      ∃ text ∈ Value.itemTexts items, name ∈ (limits.resolveText scope text).innerNames := by
  cases items with
  | nil => exact .inl h
  | cons item rest =>
    rw [resolveItems, Value.itemNames, List.mem_append] at h
    simp only [Value.itemNames, Value.itemTexts, List.mem_append, or_and_right, exists_or]
    rcases h with h | h
    · rcases mem_innerNames_resolve h with hold | hnew
      · exact .inl (.inl hold)
      · exact .inr (.inl hnew)
    · rcases mem_itemNames_resolveItems h with hold | hnew
      · exact .inl (.inr hold)
      · exact .inr (.inr hnew)

theorem mem_fieldNames_resolveFields {fields : List (String × Value)} {name : String}
    (h : name ∈ Value.fieldNames (limits.resolveFields scope fields)) :
    name ∈ Value.fieldNames fields ∨
      ∃ text ∈ Value.fieldTexts fields, name ∈ (limits.resolveText scope text).innerNames := by
  cases fields with
  | nil => exact .inl h
  | cons field rest =>
    obtain ⟨bound, value⟩ := field
    rw [resolveFields, Value.fieldNames, List.mem_append, List.mem_cons] at h
    simp only [Value.fieldNames, Value.fieldTexts, List.mem_append, List.mem_cons, or_and_right,
      exists_or]
    rcases h with (h | h) | h
    · exact .inl (.inl (.inl h))
    · rcases mem_innerNames_resolve h with hold | hnew
      · exact .inl (.inl (.inr hold))
      · exact .inr (.inl hnew)
    · rcases mem_fieldNames_resolveFields h with hold | hnew
      · exact .inl (.inr hold)
      · exact .inr (.inr hnew)

end

end Limits

end PosterOverlay
