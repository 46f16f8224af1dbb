import PosterOverlay.Proofs.Fields
import PosterOverlay.Proofs.Placeholder.Absence
import PosterOverlay.Template.Environment

/-!
# Precedence among the variables of a template call

The variables that a template sees are written in stages. A variable whose name holds no
placeholder and whose value is neither null nor an unresolved text is settled, and every later
stage but the conditionals leaves it alone: defaults only fill what is free, passes only resolve
what is unresolved, and no other variable is renamed to a name that is taken. So a conditional's
result wins, then the caller's value.
-/

namespace PosterOverlay

namespace Variables

/-- A variable that is done: nothing in its name or value is left to be resolved. -/
structure Settled (scope : Variables) (name : String) (value : Value) : Prop where
  /-- The name holds no placeholder. -/
  plain : Placeholder.occurs name = false
  /-- The variable has the value. -/
  bound : Fields.get? scope name = some value
  /-- The value is not null. -/
  notNull : value.isNull = false
  /-- The value is not an unresolved text. -/
  resolved : value.isUnresolved = false

/-- A settled variable has a value in the sense of the conditionals. -/
theorem Settled.hasValue {scope : Variables} {name : String} {value : Value}
    (h : scope.Settled name value) : scope.hasValue name = true := by
  simp [Variables.hasValue, h.bound, h.notNull, h.resolved]

/-- Whether a variable is settled depends on nothing but its lookup. -/
theorem Settled.congr {scope later : Variables} {name : String} {value : Value}
    (h : scope.Settled name value)
    (hget : Fields.get? later name = Fields.get? scope name) : later.Settled name value :=
  { h with bound := hget.trans h.bound }

/-- Filling a free name leaves a settled variable alone. -/
theorem Settled.insertNew {scope : Variables} {name : String} {value : Value}
    (h : scope.Settled name value) (other : String) (filling : Value) :
    Settled (Fields.insertNew other filling scope) name value := by
  apply h.congr
  rw [Fields.get?_insertNew, h.bound, Option.some_or]

/-- Adding defaults leaves a settled variable alone, whatever their names are resolved to. -/
theorem Settled.addDefaults {scope : Variables} {name : String} {value : Value}
    (h : scope.Settled name value) (limits : Limits) (defaults : Variables) :
    (Variables.addDefaults limits defaults scope).Settled name value := by
  unfold Variables.addDefaults
  induction defaults generalizing scope with
  | nil => exact h
  | cons entry defaults ih => exact ih (h.insertNew _ _)

/-- Resolving texts in order keeps the first binding of a name if it is no unresolved text. The
induction is on the variables still to come, next to those already done. -/
theorem get?_refreshFrom (limits : Limits) (done : Variables) {rest : Variables} {name : String}
    {value : Value} (hbound : Fields.get? (done ++ rest) name = some value)
    (hresolved : value.isUnresolved = false) :
    Fields.get? (refreshFrom limits done rest) name = some value := by
  induction rest generalizing done with
  | nil => simpa [refreshFrom] using hbound
  | cons entry rest ih =>
    obtain ⟨bound, old⟩ := entry
    apply ih
    rw [Fields.get?_append, Fields.get?_cons] at hbound
    rw [List.append_assoc, Fields.get?_append, List.singleton_append, Fields.get?_cons]
    cases hdone : Fields.get? done name with
    | some first => simpa [hdone] using hbound
    | none =>
      rw [hdone] at hbound
      rw [Option.none_or] at hbound ⊢
      by_cases heq : bound = name
      · rw [if_pos heq, Option.some.injEq] at hbound
        subst hbound
        simp [heq, hresolved]
      · rwa [if_neg heq] at hbound ⊢

/-- Resolving the unresolved texts leaves a settled variable alone. -/
theorem Settled.refresh {scope : Variables} {name : String} {value : Value}
    (h : scope.Settled name value) (limits : Limits) :
    (Variables.refresh limits scope).Settled name value :=
  { h with bound := get?_refreshFrom limits [] h.bound h.resolved }

/-- A variable takes a name without placeholders that is in use only if it has it already. -/
theorem settledName?_eq_some_iff (limits : Limits) {scope : Variables} {name : String}
    (hplain : Placeholder.occurs name = false) (hbound : Fields.contains scope name = true)
    (old : String) : settledName? limits scope old = some name ↔ old = name := by
  unfold settledName?
  constructor
  · intro h
    split at h
    · rename_i hold
      dsimp only at h
      split at h
      · cases h
      · rename_i hkept
        rw [Option.some.injEq] at h
        subst h
        refine absurd ⟨?_, hbound⟩ hkept
        intro heq
        rw [heq, hold] at hplain
        cases hplain
    · exact Option.some.inj h
  · rintro rfl
    simp [hplain]

/-- Renaming leaves every variable alone whose name holds no placeholder. -/
theorem get?_rename (limits : Limits) {scope : Variables} {name : String}
    (hplain : Placeholder.occurs name = false) (hbound : Fields.contains scope name = true) :
    Fields.get? (rename limits scope) name = Fields.get? scope name := by
  rw [rename, Fields.get?_extendNew, Fields.get?_nil, Option.none_or]
  -- The names are settled against all variables, so only the list that is renamed gets shorter.
  suffices hall : ∀ entries : Variables, Fields.get? (List.filterMap
      (fun entry : String × Value => (settledName? limits scope entry.1).map
        fun name => (name, entry.2)) entries) name = Fields.get? entries name from hall scope
  intro entries
  induction entries with
  | nil => rfl
  | cons entry entries ih =>
    obtain ⟨old, value⟩ := entry
    have hiff := settledName?_eq_some_iff limits hplain hbound old
    cases hsettled : settledName? limits scope old with
    | none =>
      have hne : old ≠ name := fun heq => by simp [hiff.mpr heq] at hsettled
      simpa [hsettled, hne] using ih
    | some renamed =>
      rw [hsettled, Option.some.injEq] at hiff
      simp [hsettled, hiff, ih]

/-- Renaming leaves a settled variable alone. -/
theorem Settled.rename {scope : Variables} {name : String} {value : Value}
    (h : scope.Settled name value) (limits : Limits) :
    (Variables.rename limits scope).Settled name value := by
  have hbound : Fields.contains scope name = true := by simp [Fields.contains, h.bound]
  exact h.congr (get?_rename limits h.plain hbound)

/-- A settling pass leaves a settled variable alone. -/
theorem Settled.settleOnce {scope : Variables} {name : String} {value : Value}
    (h : scope.Settled name value) (limits : Limits) :
    (Variables.settleOnce limits scope).Settled name value := by
  unfold Variables.settleOnce
  dsimp only
  split
  · exact (h.refresh limits).rename limits
  · exact h.refresh limits

/-- Any number of settling passes leave a settled variable alone. -/
theorem Settled.settleUpTo {scope : Variables} {name : String} {value : Value}
    (h : scope.Settled name value) (limits : Limits) (count : Nat) :
    (Variables.settleUpTo limits count scope).Settled name value := by
  induction count generalizing scope with
  | zero => exact h
  | succ count ih =>
    have hnext := h.settleOnce limits
    rw [Variables.settleUpTo]
    split
    · exact hnext
    · exact ih hnext

/-- Settling leaves a settled variable alone. -/
theorem Settled.settle {scope : Variables} {name : String} {value : Value}
    (h : scope.Settled name value) (limits : Limits) :
    (Variables.settle limits scope).Settled name value :=
  h.settleUpTo limits limits.passes

/-- A default that is resolved later leaves a settled variable alone. -/
theorem Settled.upgrade {scope : Variables} {name : String} {value : Value}
    (h : scope.Settled name value) (limits : Limits) (entry : String × Value) :
    (Variables.upgrade limits scope entry).Settled name value := by
  unfold Variables.upgrade
  split
  · dsimp only
    split
    · exact h
    · rename_i hfree
      have hne : limits.resolveName scope entry.1 ≠ name := by
        intro heq
        rw [heq, h.hasValue, Bool.or_true] at hfree
        exact hfree rfl
      apply h.congr
      rw [Fields.get?_insert, if_neg hne]
  · exact h

/-- Resolving the defaults later leaves a settled variable alone. -/
theorem Settled.upgradeDefaults {scope : Variables} {name : String} {value : Value}
    (h : scope.Settled name value) (limits : Limits) (defaults : Variables) :
    (Variables.upgradeDefaults limits defaults scope).Settled name value := by
  unfold Variables.upgradeDefaults
  induction defaults generalizing scope with
  | nil => exact h
  | cons entry defaults ih => exact ih (h.upgrade limits entry)

/-- Variables that are computed over others are distinct, so that of each name there is one
result. -/
theorem get?_extend_evaluate (scope : Variables) (conditionals : Conditionals)
    (limits : Limits) (seen : Variables) (name : String) :
    Fields.get? (scope.extend (conditionals.evaluate limits seen)) name =
      (Fields.get? (conditionals.evaluate limits seen) name).or (Fields.get? scope name) :=
  Fields.get?_extend_of_distinct scope (Fields.distinct_ofList _) name

end Variables

namespace Template

/-- The stages before the conditionals leave a settled argument alone. -/
theorem initial_settled {arguments : Variables} {name : String} {value : Value}
    (h : arguments.Settled name value) (template : Template) (limits : Limits) (key : String) :
    (template.initial limits arguments key).Settled name value :=
  ((h.insertNew _ _).addDefaults limits template.defaults).settle limits

/-- Precedence among the variables of a template call, for names without placeholders: the result
of a conditional comes first and the value of the caller second, each if it is neither null nor an
unresolved text. Neither defaults nor passes nor renaming put anything in their place. -/
theorem get?_environment (template : Template) (limits : Limits) (arguments : Variables)
    (key : String) {name : String} (hplain : Placeholder.occurs name = false) {value : Value}
    (hnull : value.isNull = false) (hresolved : value.isUnresolved = false) :
    let first := template.initial limits arguments key
    let computed := template.conditionals.evaluate limits first
    let environment := template.environment limits arguments key
    (computed.get? name = some value → Fields.get? environment name = some value) ∧
    (Fields.get? arguments name = some value →
      Fields.get? first name = some value ∧
      (computed.get? name = none → Fields.get? environment name = some value)) := by
  intro first computed environment
  -- What is settled once the conditionals are evaluated stays so to the end.
  have hlater (h : Variables.Settled (first.extend computed) name value) :
      Fields.get? environment name = some value :=
    ((h.upgradeDefaults limits template.defaults).settle limits).bound
  refine ⟨fun hcomputed => hlater ⟨hplain, ?_, hnull, hresolved⟩, fun harguments => ?_⟩
  · rw [Variables.get?_extend_evaluate, hcomputed, Option.some_or]
  · have hfirst : first.Settled name value :=
      initial_settled ⟨hplain, harguments, hnull, hresolved⟩ template limits key
    refine ⟨hfirst.bound, fun hcomputed => hlater (hfirst.congr ?_)⟩
    rw [Variables.get?_extend_evaluate, hcomputed, Option.none_or]

/-- Two defaults are resolved to names that are taken: one by the caller, and one by the only
conditional, which wins over the caller as well. -/
theorem get?_environment_taken :
    let template : Template := ⟨[("<<p>>", .string "default"), ("<<q>>", .string "<<p>>")],
      [("align", ⟨.string "left", []⟩)], []⟩
    let arguments : Variables := [("p", .string "font"), ("q", .string "align"),
      ("font", .string "Impact"), ("align", .string "right")]
    let environment := template.environment .standard arguments "key"
    Fields.get? environment "font" = some (.string "Impact") ∧
      Fields.get? environment "align" = some (.string "left") := by
  intro template arguments environment
  have hfont : Placeholder.occurs "font" = false := by decide
  have halign : Placeholder.occurs "align" = false := by decide
  have himpact : (Value.string "Impact").isUnresolved = false := by decide
  have hleft : (Value.string "left").isUnresolved = false := by decide
  let first := template.initial .standard arguments "key"
  have hcomputed : template.conditionals.evaluate .standard first =
      [("align", .string "left")] := by
    have hname := Limits.resolveName_of_not_occurs .standard first halign
    have hvalue := Limits.resolveText_of_not_occurs .standard first hleft
    simp only [template, Conditionals.evaluate, Conditional.evaluate, Conditional.choice,
      List.map_cons, List.map_nil, List.find?_nil, Option.map_none, Option.getD_none,
      Limits.resolve, hname, hvalue]
    rfl
  constructor
  · obtain ⟨_, hlater⟩ := (get?_environment template .standard arguments "key" hfont rfl
      himpact).2 (by simp [arguments])
    exact hlater (by rw [hcomputed]; simp)
  · exact (get?_environment template .standard arguments "key" halign rfl hleft).1
      (by rw [hcomputed]; simp)

end Template

end PosterOverlay
