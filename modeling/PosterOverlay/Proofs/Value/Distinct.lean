import PosterOverlay.Proofs.Fields
import PosterOverlay.Yaml.Reading

/-!
# Values that bind no name twice

Mappings are lists of entries, which could repeat a name. The values that the program handles do
not, at any depth: whatever is read from a YAML text comes out distinct.
-/

namespace PosterOverlay

namespace Value

mutual

/-- No mapping inside the value binds a name twice. -/
def Distinct : Value → Prop
  | sequence items => ItemsDistinct items
  | mapping fields => Fields.Distinct fields ∧ FieldsDistinct fields
  | _ => True

/-- No mapping inside the items binds a name twice. -/
def ItemsDistinct : List Value → Prop
  | [] => True
  | item :: rest => Distinct item ∧ ItemsDistinct rest

/-- No mapping inside the values of the fields binds a name twice. -/
def FieldsDistinct : List (String × Value) → Prop
  | [] => True
  | (_, value) :: rest => Distinct value ∧ FieldsDistinct rest

end

theorem itemsDistinct_iff {items : List Value} :
    ItemsDistinct items ↔ ∀ item ∈ items, item.Distinct := by
  induction items with
  | nil => simp [ItemsDistinct]
  | cons item rest ih => simp [ItemsDistinct, ih]

theorem fieldsDistinct_iff {fields : List (String × Value)} :
    FieldsDistinct fields ↔ ∀ field ∈ fields, field.2.Distinct := by
  induction fields with
  | nil => simp [FieldsDistinct]
  | cons field rest ih => simp [FieldsDistinct, ih]

/-- A sequence is distinct when its items are. -/
theorem distinct_sequence_iff {items : List Value} :
    (sequence items).Distinct ↔ ∀ item ∈ items, item.Distinct := by
  rw [Distinct, itemsDistinct_iff]

/-- A mapping is distinct when its names and its values are. -/
theorem distinct_mapping_iff {fields : Fields Value} :
    (mapping fields).Distinct ↔ fields.Distinct ∧ ∀ field ∈ fields, field.2.Distinct := by
  rw [Distinct, fieldsDistinct_iff]

/-- The fields of a mapping; any other value has none. -/
def entries (value : Value) : Fields Value :=
  value.mapping?.getD []

/-- What a value holds under a name, null when it holds nothing there. -/
def under (value : Value) (name : String) : Value :=
  (value.entries.get? name).getD null

/-- The items of a sequence; any other value is its own only item. -/
def items : Value → List Value
  | sequence items => items
  | single => [single]

/-- The item at a position, null when there are fewer. -/
def itemAt (value : Value) (position : Nat) : Value :=
  value.items[position]?.getD null

/-- The fields of a distinct value are distinct. -/
theorem Distinct.entries {value : Value} (h : value.Distinct) : value.entries.Distinct := by
  cases value with
  | mapping _ => exact (distinct_mapping_iff.mp h).1
  | _ => exact Fields.distinct_nil

/-- What a distinct value holds under a name is distinct. -/
theorem Distinct.under {value : Value} (h : value.Distinct) (name : String) :
    (value.under name).Distinct := by
  unfold Value.under
  cases hfound : value.entries.get? name with
  | none => trivial
  | some found =>
    cases value with
    | mapping _ => exact (distinct_mapping_iff.mp h).2 _ (Fields.mem_of_get? hfound)
    | _ => cases hfound

/-- The items of a distinct value are distinct. -/
theorem Distinct.itemAt {value : Value} (h : value.Distinct) (position : Nat) :
    (value.itemAt position).Distinct := by
  unfold Value.itemAt
  cases hitem : value.items[position]? with
  | none => trivial
  | some item =>
    have hmem := List.mem_of_getElem? hitem
    cases value with
    | sequence _ => exact distinct_sequence_iff.mp h item hmem
    | _ => exact List.mem_singleton.mp hmem ▸ h

end Value

namespace Yaml

namespace Term

mutual

/-- A term becomes a value that binds no name twice, for keys that become the same text are bound
one after another. -/
theorem distinct_value (term : Term) : term.value.Distinct := by
  cases term with
  | sequence items => exact distinct_values items
  | mapping entries =>
    refine Value.distinct_mapping_iff.mpr ⟨Fields.distinct_ofList _, fun field hfield => ?_⟩
    exact Value.fieldsDistinct_iff.mp (distinct_fields entries) field
      (Fields.mem_of_mem_ofList hfield)
  | tagged _ term => exact distinct_value term
  | _ => trivial

theorem distinct_values (items : List Term) : Value.ItemsDistinct (values items) := by
  cases items with
  | nil => trivial
  | cons item rest => exact ⟨distinct_value item, distinct_values rest⟩

theorem distinct_fields (entries : List (Term × Term)) :
    Value.FieldsDistinct (fields entries) := by
  cases entries with
  | nil => trivial
  | cons entry rest =>
    obtain ⟨key, term⟩ := entry
    have hvalue := distinct_value term
    have hrest := distinct_fields rest
    cases key <;> exact ⟨hvalue, hrest⟩

end

end Term

/-- A value read from a YAML text binds no name twice. -/
theorem distinct_of_read? {text : String} {value : Value} (h : read? text = some value) :
    value.Distinct := by
  simp only [read?, Option.bind_eq_bind, Option.bind_eq_some_iff, Option.pure_def,
    Option.some.injEq] at h
  obtain ⟨_, _, _, _, term, _, rfl⟩ := h
  exact term.distinct_value

end Yaml

end PosterOverlay
