import PosterOverlay.Proofs.Number.Sameness
import PosterOverlay.Proofs.Value.Sameness

/-!
# Values that are the same as no other

A mapping with two entries can be written backwards, and a zero can change its sign; both come to
the same value again. A value that holds neither is rigid: nothing else is the same.
-/

namespace PosterOverlay.Value

mutual

/-- Inside the value there is no mapping with two entries and no zero among the doubles. -/
def IsRigid : Value → Prop
  | float x => x ≠ 0 ∧ x ≠ -0
  | sequence items => ItemsRigid items
  | mapping fields => fields.length ≤ 1 ∧ FieldsRigid fields
  | _ => True

/-- All items are rigid. -/
def ItemsRigid : List Value → Prop
  | [] => True
  | item :: rest => IsRigid item ∧ ItemsRigid rest

/-- The values of all fields are rigid. -/
def FieldsRigid : List (String × Value) → Prop
  | [] => True
  | (_, value) :: rest => IsRigid value ∧ FieldsRigid rest

end

mutual

/-- Only the value itself is the same as a rigid value. -/
theorem IsRigid.eq_of_same {a b : Value} (ha : a.IsRigid) (h : a.same b = true) : a = b := by
  cases a with
  | float x =>
    obtain ⟨y, rfl, hsame⟩ := exists_of_same_float h
    rcases sameFloat_iff.mp hsame with rfl | ⟨hzero, _⟩ | ⟨hminus, _⟩
    · rfl
    · exact absurd hzero ha.1
    · exact absurd hminus ha.2
  | sequence items =>
    obtain ⟨others, rfl, hsame⟩ := exists_of_same_sequence h
    rw [ItemsRigid.eq_of_sameItems ha hsame]
  | mapping fields =>
    obtain ⟨others, rfl, hlength, hwithin⟩ := exists_of_same_mapping h
    rw [FieldsRigid.eq_of_within ha.2 ha.1 hlength hwithin]
  | _ => cases b <;> simp_all [same]

theorem ItemsRigid.eq_of_sameItems {items others : List Value} (ha : ItemsRigid items)
    (h : sameItems items others = true) : items = others := by
  cases items with
  | nil =>
    cases others with
    | nil => rfl
    | cons _ _ => simp [sameItems] at h
  | cons item items =>
    cases others with
    | nil => simp [sameItems] at h
    | cons other others =>
      rw [sameItems, Bool.and_eq_true] at h
      rw [IsRigid.eq_of_same ha.1 h.1, ItemsRigid.eq_of_sameItems ha.2 h.2]

theorem FieldsRigid.eq_of_within {fields others : List (String × Value)} (ha : FieldsRigid fields)
    (hone : fields.length ≤ 1) (hlength : fields.length = others.length)
    (h : within fields others = true) : fields = others := by
  match fields, others with
  | [], [] => rfl
  | [(name, value)], [(name', other)] =>
    obtain ⟨found, hfound, hsame⟩ := within_iff.mp h _ (List.mem_singleton_self _)
    rw [Fields.get?_cons] at hfound
    split at hfound
    · rename_i hname
      cases hname
      cases hfound
      rw [IsRigid.eq_of_same ha.1 hsame]
    · cases hfound
  | _ :: _ :: _, _ => simp at hone

end

mutual

/-- A value that binds no name twice is the same as itself. -/
theorem Distinct.same_self {value : Value} (h : value.Distinct) : value.same value = true := by
  cases value with
  | float x => exact sameFloat_iff.mpr (.inl rfl)
  | sequence items => exact ItemsDistinct.sameItems_self h
  | mapping fields =>
    have hvalues := FieldsDistinct.same_self h.2
    rw [same, Bool.and_eq_true, within_iff]
    refine ⟨beq_self_eq_true _, fun field hfield => ⟨field.2, ?_, hvalues field hfield⟩⟩
    exact h.1.get?_eq_some_iff.mpr hfield
  | _ => simp [same]

theorem ItemsDistinct.sameItems_self {items : List Value} (h : ItemsDistinct items) :
    sameItems items items = true := by
  cases items with
  | nil => rfl
  | cons item rest =>
    rw [sameItems, Distinct.same_self h.1, ItemsDistinct.sameItems_self h.2, Bool.and_self]

theorem FieldsDistinct.same_self {fields : List (String × Value)} (h : FieldsDistinct fields) :
    ∀ field ∈ fields, field.2.same field.2 = true := by
  cases fields with
  | nil => simp
  | cons field rest =>
    obtain ⟨name, value⟩ := field
    exact List.forall_mem_cons.mpr ⟨Distinct.same_self h.1, FieldsDistinct.same_self h.2⟩

end

/-! ### The mirrored value -/

mutual

/-- The value with every mapping written backwards and every zero among the doubles with the other
sign. -/
def mirrored : Value → Value
  | float x => float (if x = 0 then -0 else if x = -0 then 0 else x)
  | sequence items => sequence (mirroredItems items)
  | mapping fields => mapping (mirroredFields fields).reverse
  | value => value

/-- The mirrored items, each in its place. -/
def mirroredItems : List Value → List Value
  | [] => []
  | item :: rest => mirrored item :: mirroredItems rest

/-- The fields with mirrored values, in their order. -/
def mirroredFields : List (String × Value) → List (String × Value)
  | [] => []
  | (name, value) :: rest => (name, mirrored value) :: mirroredFields rest

end

theorem mirroredFields_eq_map (fields : Fields Value) :
    mirroredFields fields = fields.map fun field => (field.1, field.2.mirrored) := by
  induction fields with
  | nil => rfl
  | cons field rest ih => rw [mirroredFields, ih, List.map_cons]

theorem names_reverse_mirroredFields (fields : Fields Value) :
    Fields.names (mirroredFields fields).reverse = fields.names.reverse := by
  rw [mirroredFields_eq_map, Fields.names, Fields.names, List.map_reverse, List.map_map]
  rfl

/-- Fields written backwards bind no name twice if they did not before. -/
theorem distinct_reverse_mirroredFields {fields : Fields Value} (h : fields.Distinct) :
    Fields.Distinct (mirroredFields fields).reverse := by
  rw [Fields.Distinct, names_reverse_mirroredFields]
  exact List.nodup_reverse.mpr h

mutual

/-- The mirrored value binds no name twice if the value did not. -/
theorem Distinct.mirrored {value : Value} (h : value.Distinct) : value.mirrored.Distinct := by
  cases value with
  | sequence items => exact ItemsDistinct.mirrored h
  | mapping fields =>
    have hvalues := fieldsDistinct_iff.mp (FieldsDistinct.mirrored h.2)
    refine distinct_mapping_iff.mpr ⟨distinct_reverse_mirroredFields h.1, fun field hfield => ?_⟩
    exact hvalues field (List.mem_reverse.mp hfield)
  | _ => trivial

theorem ItemsDistinct.mirrored {items : List Value} (h : ItemsDistinct items) :
    ItemsDistinct (mirroredItems items) := by
  cases items with
  | nil => trivial
  | cons item rest => exact ⟨Distinct.mirrored h.1, ItemsDistinct.mirrored h.2⟩

theorem FieldsDistinct.mirrored {fields : List (String × Value)} (h : FieldsDistinct fields) :
    FieldsDistinct (mirroredFields fields) := by
  cases fields with
  | nil => trivial
  | cons field rest =>
    obtain ⟨name, value⟩ := field
    exact ⟨Distinct.mirrored h.1, FieldsDistinct.mirrored h.2⟩

end

theorem same_mirrored_float (x : Float) : (float x).same (float x).mirrored = true := by
  rw [mirrored, same, sameFloat_iff]
  split
  · rename_i h
    exact .inr (.inl ⟨h, rfl⟩)
  · split
    · rename_i h
      exact .inr (.inr ⟨h, rfl⟩)
    · exact .inl rfl

mutual

/-- The mirrored value is the same as the value. -/
theorem Distinct.same_mirrored {value : Value} (h : value.Distinct) :
    value.same value.mirrored = true := by
  cases value with
  | float x => exact same_mirrored_float x
  | sequence items => exact ItemsDistinct.sameItems_mirrored h
  | mapping fields =>
    have hvalues := FieldsDistinct.same_mirrored h.2
    rw [Value.mirrored, same, Bool.and_eq_true, beq_iff_eq, within_iff]
    constructor
    · simp [mirroredFields_eq_map]
    · intro field hfield
      refine ⟨field.2.mirrored, ?_, hvalues field hfield⟩
      rw [(distinct_reverse_mirroredFields h.1).get?_eq_some_iff, List.mem_reverse,
        mirroredFields_eq_map]
      exact List.mem_map_of_mem hfield
  | _ => simp [Value.mirrored, same]

theorem ItemsDistinct.sameItems_mirrored {items : List Value} (h : ItemsDistinct items) :
    sameItems items (mirroredItems items) = true := by
  cases items with
  | nil => rfl
  | cons item rest =>
    rw [mirroredItems, sameItems, Distinct.same_mirrored h.1, ItemsDistinct.sameItems_mirrored h.2,
      Bool.and_self]

theorem FieldsDistinct.same_mirrored {fields : List (String × Value)} (h : FieldsDistinct fields) :
    ∀ field ∈ fields, field.2.same field.2.mirrored = true := by
  cases fields with
  | nil => simp
  | cons field rest =>
    obtain ⟨name, value⟩ := field
    exact List.forall_mem_cons.mpr
      ⟨Distinct.same_mirrored h.1, FieldsDistinct.same_mirrored h.2⟩

end

/-- A list without repetitions that reads the same backwards has one item at most. -/
theorem length_le_one_of_reverse_eq {names : List String} (h : names.Nodup)
    (hreverse : names.reverse = names) : names.length ≤ 1 := by
  match names with
  | [] => exact Nat.zero_le 1
  | [_] => exact Nat.le_refl 1
  | first :: second :: rest =>
    -- The first item would be the last one as well.
    have hlast : (first :: second :: rest).getLast? = some first := by
      rw [← List.head?_reverse, hreverse]
      rfl
    rw [List.getLast?_cons_cons] at hlast
    exact absurd (List.mem_of_getLast? hlast) (List.nodup_cons.mp h).1

mutual

/-- A value that mirroring leaves as it is is rigid. -/
theorem Distinct.isRigid_of_mirrored_eq {value : Value} (ha : value.Distinct)
    (h : value.mirrored = value) : value.IsRigid := by
  cases value with
  | float x =>
    have hne : (0 : Float) ≠ -0 := by decide +kernel
    rw [Value.mirrored, float.injEq] at h
    constructor
    · rintro rfl
      rw [if_pos rfl] at h
      exact hne h.symm
    · rintro rfl
      rw [if_neg hne.symm, if_pos rfl] at h
      exact hne h
  | sequence items =>
    rw [Value.mirrored, sequence.injEq] at h
    exact ItemsDistinct.itemsRigid_of_mirrored_eq ha h
  | mapping fields =>
    rw [Value.mirrored, mapping.injEq] at h
    have hnames := names_reverse_mirroredFields fields
    rw [h] at hnames
    have hlength := length_le_one_of_reverse_eq ha.1 hnames.symm
    rw [Fields.names, List.length_map] at hlength
    have hreverse : (mirroredFields fields).reverse = mirroredFields fields := by
      match fields, hlength with
      | [], _ => rfl
      | [_], _ => rfl
    rw [hreverse] at h
    exact ⟨hlength, FieldsDistinct.fieldsRigid_of_mirrored_eq ha.2 h⟩
  | _ => trivial

theorem ItemsDistinct.itemsRigid_of_mirrored_eq {items : List Value} (ha : ItemsDistinct items)
    (h : mirroredItems items = items) : ItemsRigid items := by
  cases items with
  | nil => trivial
  | cons item rest =>
    rw [mirroredItems, List.cons.injEq] at h
    exact ⟨Distinct.isRigid_of_mirrored_eq ha.1 h.1,
      ItemsDistinct.itemsRigid_of_mirrored_eq ha.2 h.2⟩

theorem FieldsDistinct.fieldsRigid_of_mirrored_eq {fields : List (String × Value)}
    (ha : FieldsDistinct fields) (h : mirroredFields fields = fields) : FieldsRigid fields := by
  cases fields with
  | nil => trivial
  | cons field rest =>
    obtain ⟨name, value⟩ := field
    rw [mirroredFields, List.cons.injEq, Prod.mk.injEq] at h
    exact ⟨Distinct.isRigid_of_mirrored_eq ha.1 h.1.2,
      FieldsDistinct.fieldsRigid_of_mirrored_eq ha.2 h.2⟩

end

/-! ### Variants -/

/-- Another value that is the same and binds no name twice. -/
def Variant (value other : Value) : Prop :=
  other.Distinct ∧ value.same other = true

theorem Distinct.variant_self {value : Value} (h : value.Distinct) : value.Variant value :=
  ⟨h, h.same_self⟩

theorem Distinct.variant_mirrored {value : Value} (h : value.Distinct) :
    value.Variant value.mirrored :=
  ⟨h.mirrored, h.same_mirrored⟩

/-- A value is rigid exactly when it is its only variant. -/
theorem isRigid_iff {value : Value} (h : value.Distinct) :
    value.IsRigid ↔ ∀ other, value.Variant other → value = other := by
  constructor
  · intro hrigid other hother
    exact hrigid.eq_of_same hother.2
  · intro honly
    exact h.isRigid_of_mirrored_eq (honly _ h.variant_mirrored).symm

end PosterOverlay.Value
