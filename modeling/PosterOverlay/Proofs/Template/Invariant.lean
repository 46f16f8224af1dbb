import PosterOverlay.Proofs.Fields
import PosterOverlay.Template.Environment

/-!
# What all variables of a template call have in common

The stages that make the variables of a template call move values about and resolve them, and do
nothing else to them. So a property of values that resolving keeps holds of all variables in the
end if it holds of the caller's variables, of the defaults and of the conditionals' results.
-/

namespace PosterOverlay

/-- Every variable has a value with the property. -/
def Variables.All (property : Value → Prop) (scope : Variables) : Prop :=
  ∀ entry ∈ scope, property entry.2

instance (property : Value → Prop) [DecidablePred property] (scope : Variables) :
    Decidable (scope.All property) :=
  inferInstanceAs (Decidable (∀ entry ∈ scope, property entry.2))

/-- Resolving a value with the property gives one again, if all variables have it. -/
def Limits.Keeps (limits : Limits) (property : Value → Prop) : Prop :=
  ∀ scope value, Variables.All property scope → property value →
    property (limits.resolve scope value)

/-- The values that a conditional may choose. -/
def Conditional.values (conditional : Conditional) : List Value :=
  conditional.otherwise :: conditional.clauses.map Clause.value

/-- A conditional chooses one of its values. -/
theorem Conditional.choice_mem_values (conditional : Conditional) (limits : Limits)
    (scope : Variables) : conditional.choice limits scope ∈ conditional.values := by
  unfold choice values
  cases hfound : conditional.clauses.find? fun clause => clause.isMatch limits scope with
  | none => exact List.mem_cons_self
  | some clause =>
    have hmem := List.mem_of_find?_eq_some hfound
    exact List.mem_cons_of_mem _ (List.mem_map_of_mem hmem)

namespace Variables

variable {property : Value → Prop} {limits : Limits} {scope : Variables}

/-- Filling a free name with such a value keeps the property. -/
theorem All.insertNew (h : scope.All property) (name : String) {value : Value}
    (hvalue : property value) : All property (Fields.insertNew name value scope) := by
  intro entry hentry
  rcases Fields.mem_insertNew hentry with rfl | hold
  · exact hvalue
  · exact h entry hold

/-- Binding a name to such a value keeps the property. -/
theorem All.insert (h : scope.All property) (name : String) {value : Value}
    (hvalue : property value) : All property (Fields.insert name value scope) := by
  intro entry hentry
  rcases Fields.mem_insert hentry with rfl | hold
  · exact hvalue
  · exact h entry hold

/-- Binding such variables over the others keeps the property. -/
theorem All.extend (h : scope.All property) {later : Variables} (hlater : later.All property) :
    All property (Fields.extend scope later) := fun entry hentry =>
  (Fields.mem_extend hentry).elim (h entry) (hlater entry)

/-- Adding such defaults keeps the property. -/
theorem All.addDefaults (h : scope.All property) (limits : Limits) {defaults : Variables}
    (hdefaults : defaults.All property) :
    All property (Variables.addDefaults limits defaults scope) := by
  unfold Variables.addDefaults
  induction defaults generalizing scope with
  | nil => exact h
  | cons entry defaults ih =>
    obtain ⟨hentry, hrest⟩ := List.forall_mem_cons.mp hdefaults
    exact ih (h.insertNew _ hentry) hrest

/-- Resolving texts in order keeps the property. The induction is on the variables still to come,
next to those already done. -/
theorem All.refreshFrom (hkeeps : limits.Keeps property) {done rest : Variables}
    (hdone : done.All property) (hrest : rest.All property) :
    All property (Variables.refreshFrom limits done rest) := by
  induction rest generalizing done with
  | nil => exact hdone
  | cons entry rest ih =>
    obtain ⟨name, value⟩ := entry
    obtain ⟨hvalue, hlater⟩ := List.forall_mem_cons.mp hrest
    have hall : All property (done ++ (name, value) :: rest) :=
      List.forall_mem_append.mpr ⟨hdone, hrest⟩
    refine ih (List.forall_mem_append.mpr ⟨hdone, ?_⟩) hlater
    rw [List.forall_mem_singleton]
    dsimp only
    split
    · exact hkeeps _ _ hall hvalue
    · exact hvalue

/-- Renaming keeps the property, for it leaves values alone. -/
theorem All.rename (h : scope.All property) (limits : Limits) :
    All property (Variables.rename limits scope) := by
  intro entry hentry
  have hmem := (Fields.mem_extendNew hentry).resolve_left List.not_mem_nil
  obtain ⟨old, hold, hsettled⟩ := List.mem_filterMap.mp hmem
  obtain ⟨name, _, rfl⟩ := Option.map_eq_some_iff.mp hsettled
  exact h old hold

/-- A settling pass keeps the property. -/
theorem All.settleOnce (h : scope.All property) (hkeeps : limits.Keeps property) :
    All property (Variables.settleOnce limits scope) := by
  have hfresh : All property (Variables.refresh limits scope) :=
    All.refreshFrom hkeeps (List.forall_mem_nil _) h
  unfold Variables.settleOnce
  dsimp only
  split
  · exact hfresh.rename limits
  · exact hfresh

/-- Any number of settling passes keep the property. -/
theorem All.settleUpTo (h : scope.All property) (hkeeps : limits.Keeps property) (count : Nat) :
    All property (Variables.settleUpTo limits count scope) := by
  induction count generalizing scope with
  | zero => exact h
  | succ count ih =>
    have hnext := h.settleOnce hkeeps
    rw [Variables.settleUpTo]
    split
    · exact hnext
    · exact ih hnext

/-- A default that is resolved later keeps the property. -/
theorem All.upgrade (h : scope.All property) (hkeeps : limits.Keeps property)
    {entry : String × Value} (hentry : property entry.2) :
    All property (Variables.upgrade limits scope entry) := by
  unfold Variables.upgrade
  split
  · dsimp only
    split
    · exact h
    · exact h.insert _ (hkeeps _ _ h hentry)
  · exact h

/-- Resolving such defaults later keeps the property. -/
theorem All.upgradeDefaults (h : scope.All property) (hkeeps : limits.Keeps property)
    {defaults : Variables} (hdefaults : defaults.All property) :
    All property (Variables.upgradeDefaults limits defaults scope) := by
  unfold Variables.upgradeDefaults
  induction defaults generalizing scope with
  | nil => exact h
  | cons entry defaults ih =>
    obtain ⟨hentry, hrest⟩ := List.forall_mem_cons.mp hdefaults
    exact ih (h.upgrade hkeeps hentry) hrest

/-- Conditionals whose values have the property compute such variables. -/
theorem All.evaluate (h : scope.All property) (hkeeps : limits.Keeps property)
    {conditionals : Conditionals}
    (hvalues : ∀ entry ∈ conditionals, ∀ value ∈ entry.2.values, property value) :
    All property (conditionals.evaluate limits scope) := by
  intro computed hcomputed
  obtain ⟨entry, hentry, rfl⟩ := List.mem_map.mp (Fields.mem_of_mem_ofList hcomputed)
  exact hkeeps _ _ h (hvalues entry hentry _ (entry.2.choice_mem_values limits scope))

end Variables

namespace Template

variable {property : Value → Prop} {limits : Limits} {arguments : Variables} {key : String}
  {template : Template}

/-- The variables before the conditionals have the property when the caller's variables, the key
and the defaults have it. -/
theorem all_initial (hkeeps : limits.Keeps property) (harguments : arguments.All property)
    (hkey : property (.string key)) (hdefaults : template.defaults.All property) :
    Variables.All property (template.initial limits arguments key) :=
  ((harguments.insertNew _ hkey).addDefaults limits hdefaults).settleUpTo hkeeps limits.passes

/-- All variables of a template call have the property when, besides, the results of the
conditionals have it. -/
theorem all_environment (hkeeps : limits.Keeps property) (harguments : arguments.All property)
    (hkey : property (.string key)) (hdefaults : template.defaults.All property)
    (hcomputed : Variables.All property
      (template.conditionals.evaluate limits (template.initial limits arguments key))) :
    Variables.All property (template.environment limits arguments key) :=
  (((all_initial hkeeps harguments hkey hdefaults).extend hcomputed).upgradeDefaults hkeeps
    hdefaults).settleUpTo hkeeps limits.passes

/-- Every field that a template produces is one of its overlay block with name and value
resolved. -/
theorem exists_of_mem_produce {field : String × Value}
    (h : field ∈ template.produce limits arguments key) :
    ∃ written ∈ template.overlay, keepsField written.1 field.2 = true ∧
      field = (limits.resolveName (template.environment limits arguments key) written.1,
        limits.resolve (template.environment limits arguments key) written.2) := by
  unfold produce at h
  split at h
  · exact absurd h List.not_mem_nil
  · obtain ⟨written, hwritten, hfield⟩ := List.mem_filterMap.mp (Fields.mem_of_mem_ofList h)
    simp only [Option.ite_none_right_eq_some, Option.some.injEq] at hfield
    obtain ⟨hkept, rfl⟩ := hfield
    exact ⟨written, hwritten, hkept, rfl⟩

end Template

end PosterOverlay
