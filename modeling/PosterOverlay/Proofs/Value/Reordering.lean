import PosterOverlay.Proofs.Value.Distinct

/-!
# Writing the entries of mappings in another order

Two values are reorderings of each other when they differ only in the order of the entries of
mappings, at any depth. Reordered values that bind no name twice answer a lookup alike: both find
nothing, or they find reordered values again.
-/

namespace PosterOverlay.Value

/-- The second value is the first one with the entries of some mappings inside it permuted. -/
inductive Reordered : Value → Value → Prop where
  /-- Nothing is permuted. -/
  | refl (value : Value) : Reordered value value
  /-- One reordering comes after another. -/
  | trans {value middle later : Value} (first : Reordered value middle)
      (second : Reordered middle later) : Reordered value later
  /-- The entries of the value itself are permuted. -/
  | perm {fields later : Fields Value} (h : fields.Perm later) :
      Reordered (mapping fields) (mapping later)
  /-- The value of one field is reordered. -/
  | field (front back : Fields Value) (name : String) {value later : Value}
      (h : Reordered value later) :
      Reordered (mapping (front ++ (name, value) :: back))
        (mapping (front ++ (name, later) :: back))
  /-- One item is reordered. -/
  | item (front back : List Value) {value later : Value} (h : Reordered value later) :
      Reordered (sequence (front ++ value :: back)) (sequence (front ++ later :: back))

/-- A reordering binds no name twice if the value did not. -/
theorem Reordered.distinct {value later : Value} (h : Reordered value later)
    (hdistinct : value.Distinct) : later.Distinct := by
  induction h with
  | refl => exact hdistinct
  | trans _ _ ih₁ ih₂ => exact ih₂ (ih₁ hdistinct)
  | perm hperm =>
    obtain ⟨hnames, hvalues⟩ := distinct_mapping_iff.mp hdistinct
    have hnames' := (hperm.map Prod.fst).nodup_iff.mp hnames
    refine distinct_mapping_iff.mpr ⟨hnames', fun field hfield => ?_⟩
    exact hvalues field (hperm.mem_iff.mpr hfield)
  | field front back name _ ih =>
    obtain ⟨hnames, hvalues⟩ := distinct_mapping_iff.mp hdistinct
    refine distinct_mapping_iff.mpr ⟨?_, ?_⟩
    · simpa [Fields.Distinct, Fields.names] using hnames
    · simp only [List.forall_mem_append, List.forall_mem_cons] at hvalues ⊢
      exact ⟨hvalues.1, ih hvalues.2.1, hvalues.2.2⟩
  | item front back _ ih =>
    rw [distinct_sequence_iff] at hdistinct ⊢
    simp only [List.forall_mem_append, List.forall_mem_cons] at hdistinct ⊢
    exact ⟨hdistinct.1, ih hdistinct.2.1, hdistinct.2.2⟩

section Related

variable {α β : Type} {related : α → β → Prop}

/-- Related defaults in place of nothing make lookups that always find related ones. -/
theorem getD_of_rel {found : Option α} {later : Option β} (h : Option.Rel related found later)
    {default : α} {default' : β} (hdefault : related default default') :
    related (found.getD default) (later.getD default') := by
  cases h with
  | none => exact hdefault
  | some h => exact h

/-- Where both lookups find nothing, related ones take their place. -/
theorem rel_or {found first : Option α} {later second : Option β}
    (h : Option.Rel related found later) (h' : Option.Rel related first second) :
    Option.Rel related (found.or first) (later.or second) := by
  cases h with
  | none => simpa using h'
  | some h => exact .some h

/-- Keeping related values alike leaves lookups related. -/
theorem rel_filter {found : Option α} {later : Option β} (h : Option.Rel related found later)
    {keep : α → Bool} {keep' : β → Bool} (hkeep : ∀ a b, related a b → keep a = keep' b) :
    Option.Rel related (found.filter keep) (later.filter keep') := by
  cases h with
  | none => exact .none
  | @some a b h =>
    rw [Option.filter_some, Option.filter_some, hkeep a b h]
    split
    · exact .some h
    · exact .none

end Related

/-- Two lookups find reordered values, or both nothing. -/
abbrev SameFound : Option Value → Option Value → Prop :=
  Option.Rel Reordered

theorem SameFound.refl (found : Option Value) : SameFound found found := by
  cases found with
  | none => exact .none
  | some value => exact .some (.refl value)

theorem SameFound.trans {found middle later : Option Value} (first : SameFound found middle)
    (second : SameFound middle later) : SameFound found later := by
  cases first with
  | none => exact second
  | some h =>
    cases second with
    | some h' => exact .some (h.trans h')

/-- Two mappings hold reordered values under the same names. -/
def SameFields (fields later : Fields Value) : Prop :=
  ∀ name, SameFound (fields.get? name) (later.get? name)

theorem SameFields.refl (fields : Fields Value) : SameFields fields fields :=
  fun _ => .refl _

theorem SameFields.trans {fields middle later : Fields Value} (first : SameFields fields middle)
    (second : SameFields middle later) : SameFields fields later :=
  fun name => (first name).trans (second name)

/-- Mappings that hold reordered values still do so when some entries are left out, provided that
the choice does not depend on the order inside a value. -/
theorem SameFields.filter {fields later : Fields Value} (h : SameFields fields later)
    (hdistinct : fields.Distinct) (hlater : later.Distinct) {keep : String × Value → Bool}
    (hkeep : ∀ name value other, Reordered value other → keep (name, value) = keep (name, other)) :
    SameFields (List.filter keep fields) (List.filter keep later) := by
  intro name
  rw [hdistinct.get?_filter, hlater.get?_filter]
  exact rel_filter (h name) (hkeep name)

/-- Two values are no mappings, or hold reordered values under the same names. -/
abbrev SameMapping (value later : Value) : Prop :=
  Option.Rel SameFields value.mapping? later.mapping?

theorem SameMapping.trans {value middle later : Value} (first : SameMapping value middle)
    (second : SameMapping middle later) : SameMapping value later := by
  unfold SameMapping at *
  generalize value.mapping? = fields at *
  generalize middle.mapping? = between at *
  generalize later.mapping? = last at *
  cases first with
  | none => exact second
  | some h =>
    cases second with
    | some h' => exact .some (h.trans h')

/-- A reordering of a value that binds no name twice holds reordered values under the same names,
if it is a mapping at all. -/
theorem Reordered.mapping? {value later : Value} (h : Reordered value later)
    (hdistinct : value.Distinct) : SameMapping value later := by
  induction h with
  | refl value =>
    unfold SameMapping
    cases value.mapping? with
    | none => exact .none
    | some fields => exact .some (.refl fields)
  | trans first _ ih₁ ih₂ => exact (ih₁ hdistinct).trans (ih₂ (first.distinct hdistinct))
  | perm hperm =>
    refine .some fun name => ?_
    rw [(distinct_mapping_iff.mp hdistinct).1.get?_perm hperm]
    exact SameFound.refl _
  | field front back name h _ =>
    refine .some fun other => ?_
    rw [Fields.get?_append, Fields.get?_append, Fields.get?_cons, Fields.get?_cons]
    refine rel_or (SameFound.refl _) ?_
    split
    · exact .some h
    · exact SameFound.refl _
  | item => exact .none

/-- The fields of reordered values hold reordered values under the same names. -/
theorem Reordered.entries {value later : Value} (h : Reordered value later)
    (hdistinct : value.Distinct) : SameFields value.entries later.entries :=
  getD_of_rel (h.mapping? hdistinct) (SameFields.refl [])

/-- What reordered values hold under a name is reordered. -/
theorem Reordered.under {value later : Value} (h : Reordered value later)
    (hdistinct : value.Distinct) (name : String) :
    Reordered (value.under name) (later.under name) :=
  getD_of_rel (h.entries hdistinct name) (.refl null)

/-- The items of reordered values are reordered, each in its place. -/
theorem Reordered.itemAt {value later : Value} (h : Reordered value later) (position : Nat) :
    Reordered (value.itemAt position) (later.itemAt position) := by
  induction h with
  | refl => exact .refl _
  | trans _ _ ih₁ ih₂ => exact ih₁.trans ih₂
  | perm hperm =>
    cases position with
    | zero => exact .perm hperm
    | succ => exact .refl _
  | field front back name h _ =>
    cases position with
    | zero => exact .field front back name h
    | succ => exact .refl _
  | item front back h _ =>
    simp only [Value.itemAt, Value.items, List.getElem?_append, List.getElem?_cons]
    split
    · exact .refl _
    · split
      · exact h
      · exact .refl _

end PosterOverlay.Value
