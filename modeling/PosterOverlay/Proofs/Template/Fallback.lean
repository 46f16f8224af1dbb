import PosterOverlay.Proofs.Fields
import PosterOverlay.Proofs.Placeholder.Absence
import PosterOverlay.Template.Definition

/-!
# Conditionals beneath those of a template

Of the conditionals whose names are resolved to one variable, the last one decides about it. A
template's conditionals come after the fallback beneath them, unless both write a name the same
way: then the template's conditional takes the place of the fallback's, and a later conditional
whose name is only resolved to the variable decides in its stead.
-/

namespace PosterOverlay

namespace Conditionals

/-- The conditional that decides about a variable: the last one whose name is resolved to it. -/
def deciding? (conditionals : Conditionals) (limits : Limits) (scope : Variables)
    (name : String) : Option (String × Conditional) :=
  conditionals.reverse.find? fun entry => limits.resolveName scope entry.1 = name

/-- Whether a template's conditional still decides about its variable with a fallback beneath it:
either the fallback does not write its name, or all of the template's conditionals for the variable
take places in the fallback, and this one takes the last place for the variable. -/
def StaysDeciding (own fallback : Conditionals) (limits : Limits) (scope : Variables)
    (name : String) (entry : String × Conditional) : Prop :=
  entry.1 ∉ Fields.names fallback ∨
    (∀ other ∈ own, limits.resolveName scope other.1 = name →
      other.1 ∈ Fields.names fallback) ∧
    (fallback.deciding? limits scope name).map Prod.fst = some entry.1

/-- The conditionals of a template whose names the fallback does not write. -/
def newTo (own fallback : Conditionals) : Conditionals :=
  own.filter fun entry => !Fields.contains fallback entry.1

theorem mem_newTo_iff {own fallback : Conditionals} {entry : String × Conditional} :
    entry ∈ own.newTo fallback ↔ entry ∈ own ∧ entry.1 ∉ Fields.names fallback := by
  rw [newTo, List.mem_filter, Bool.not_eq_true', Fields.contains_eq_false_iff]

variable (limits : Limits) (scope : Variables) (name : String)

/-- The conditional that decides about a variable gives its value. -/
theorem get?_evaluate (conditionals : Conditionals) :
    Fields.get? (conditionals.evaluate limits scope) name =
      (conditionals.deciding? limits scope name).map fun entry =>
        entry.2.evaluate limits scope := by
  rw [evaluate, Fields.get?_ofList, ← List.map_reverse, Fields.get?_map_eq_find?]
  rfl

/-- What decides about a variable is a conditional whose name is resolved to it. -/
theorem mem_of_deciding? {conditionals : Conditionals} {limits : Limits} {scope : Variables}
    {name : String} {entry : String × Conditional}
    (h : conditionals.deciding? limits scope name = some entry) :
    entry ∈ conditionals ∧ limits.resolveName scope entry.1 = name :=
  ⟨List.mem_reverse.mp (List.mem_of_find?_eq_some h), by simpa using List.find?_some h⟩

/-- Nothing decides about a variable exactly when no name is resolved to it. -/
theorem deciding?_eq_none_iff (conditionals : Conditionals) :
    conditionals.deciding? limits scope name = none ↔
      ∀ entry ∈ conditionals, limits.resolveName scope entry.1 ≠ name := by
  simp [deciding?, List.find?_eq_none]

/-- Conditionals written over others come after them under new names, and otherwise in their
place. -/
theorem deciding?_extend {own fallback : Conditionals} (hown : Fields.Distinct own)
    (hfallback : Fields.Distinct fallback) :
    deciding? (Fields.extend fallback own) limits scope name =
      ((own.newTo fallback).deciding? limits scope name).or
      ((fallback.deciding? limits scope name).map fun entry =>
        (entry.1, (Fields.get? own entry.1).getD entry.2)) := by
  unfold deciding?
  rw [hfallback.extend_eq hown, List.reverse_append, List.find?_append, ← List.map_reverse,
    List.find?_map]
  rfl

/-- The conditional that decides does so among the new ones, if it is one of them. -/
theorem deciding?_newTo {own fallback : Conditionals} {limits : Limits} {scope : Variables}
    {name : String} {entry : String × Conditional}
    (h : own.deciding? limits scope name = some entry)
    (hnew : entry.1 ∉ Fields.names fallback) :
    (own.newTo fallback).deciding? limits scope name = some entry := by
  obtain ⟨hname, front, back, hsplit, hfront⟩ := List.find?_eq_some_iff_append.mp h
  unfold deciding? newTo
  rw [← List.filter_reverse, List.find?_filter]
  refine List.find?_eq_some_iff_append.mpr ⟨?_, front, back, hsplit, fun other hother => ?_⟩
  · simp [Fields.contains_eq_false_iff.mpr hnew, hname]
  · have hother := hfront other hother
    rw [Bool.not_eq_true'] at hother
    simp [hother]

/-- Where no conditional of a template decides about a variable, the fallback beneath it does. -/
theorem deciding?_extend_of_none {own fallback : Conditionals} (hown : Fields.Distinct own)
    (hfallback : Fields.Distinct fallback)
    (h : own.deciding? limits scope name = none) :
    deciding? (Fields.extend fallback own) limits scope name =
      fallback.deciding? limits scope name := by
  have hnone := (deciding?_eq_none_iff limits scope name own).mp h
  have hnew := (deciding?_eq_none_iff limits scope name (own.newTo fallback)).mpr
    fun entry hentry => hnone entry (mem_newTo_iff.mp hentry).1
  rw [deciding?_extend limits scope name hown hfallback, hnew, Option.none_or]
  cases hlast : fallback.deciding? limits scope name with
  | none => rfl
  | some entry =>
    -- The template writes nothing in the place of this conditional, for that would decide.
    have hget : Fields.get? own entry.1 = none := by
      rw [Fields.get?_eq_none_iff]
      intro hmem
      obtain ⟨other, hother, hname⟩ := List.mem_map.mp hmem
      exact hnone other hother (hname ▸ (mem_of_deciding? hlast).2)
    rw [Option.map_some, hget, Option.getD_none]

/-- A conditional of a template that stays deciding decides with the fallback beneath. -/
theorem deciding?_extend_of_stays {own fallback : Conditionals} (hown : Fields.Distinct own)
    (hfallback : Fields.Distinct fallback) {entry : String × Conditional}
    (h : own.deciding? limits scope name = some entry)
    (hstays : own.StaysDeciding fallback limits scope name entry) :
    deciding? (Fields.extend fallback own) limits scope name = some entry := by
  rw [deciding?_extend limits scope name hown hfallback]
  rcases hstays with hnew | ⟨htaken, hlast⟩
  · rw [deciding?_newTo h hnew, Option.some_or]
  · have hnone : (own.newTo fallback).deciding? limits scope name = none := by
      refine (deciding?_eq_none_iff _ _ _ _).mpr fun other hother hname => ?_
      obtain ⟨hother, hnew⟩ := mem_newTo_iff.mp hother
      exact hnew (htaken other hother hname)
    obtain ⟨last, hfound, hname⟩ := Option.map_eq_some_iff.mp hlast
    have hget : Fields.get? own entry.1 = some entry.2 :=
      hown.get?_eq_some_iff.mpr (mem_of_deciding? h).1
    rw [hnone, Option.none_or, hfound, Option.map_some, hname, hget, Option.getD_some]

/-- A conditional of a template that does not stay deciding gives way to another one, whose name
is written in another way. -/
theorem deciding?_extend_of_not_stays {own fallback : Conditionals} (hown : Fields.Distinct own)
    (hfallback : Fields.Distinct fallback) {entry : String × Conditional}
    (h : own.deciding? limits scope name = some entry)
    (hstays : ¬own.StaysDeciding fallback limits scope name entry) :
    ∃ other, deciding? (Fields.extend fallback own) limits scope name = some other ∧
      other.1 ≠ entry.1 := by
  obtain ⟨hmem, hlast⟩ := not_or.mp hstays
  have hmem : entry.1 ∈ Fields.names fallback := Decidable.not_not.mp hmem
  have hname := (mem_of_deciding? h).2
  rw [deciding?_extend limits scope name hown hfallback]
  cases hnew : (own.newTo fallback).deciding? limits scope name with
  | some other =>
    refine ⟨other, rfl, ?_⟩
    intro heq
    have hfree := (mem_newTo_iff.mp (mem_of_deciding? hnew).1).2
    exact hfree (heq ▸ hmem)
  | none =>
    rw [deciding?_eq_none_iff] at hnew
    have htaken : ∀ other ∈ own, limits.resolveName scope other.1 = name →
        other.1 ∈ Fields.names fallback := by
      intro other hother hresolved
      refine Decidable.byContradiction fun hfree => ?_
      exact hnew other (mem_newTo_iff.mpr ⟨hother, hfree⟩) hresolved
    cases hfound : fallback.deciding? limits scope name with
    | none =>
      obtain ⟨beneath, hbeneath, hsame⟩ := List.mem_map.mp hmem
      have hdecides := (deciding?_eq_none_iff limits scope name fallback).mp hfound
      exact absurd (hsame ▸ hname) (hdecides beneath hbeneath)
    | some last =>
      refine ⟨_, rfl, fun heq => hlast ⟨htaken, ?_⟩⟩
      rw [hfound, Option.map_some]
      exact congrArg some heq

end Conditionals

namespace Template

/-- Conditionals beneath those of a template are a fallback: they decide about the variables that
the template leaves open, and a variable of the template keeps its value as long as its conditional
stays deciding. Otherwise another conditional gives the value. -/
theorem evaluate_withFallback (template : Template) (fallback : Conditionals)
    (hown : template.conditionals.Distinct) (hfallback : fallback.Distinct) (limits : Limits)
    (scope : Variables) (name : String) :
    let own := template.conditionals
    let merged := (template.withFallback fallback).conditionals
    let value (conditionals : Conditionals) :=
      Fields.get? (conditionals.evaluate limits scope) name
    (value own = none → value merged = value fallback) ∧
    ∀ entry, own.deciding? limits scope name = some entry →
      (own.StaysDeciding fallback limits scope name entry → value merged = value own) ∧
      (¬own.StaysDeciding fallback limits scope name entry →
        ∃ other, merged.deciding? limits scope name = some other ∧ other.1 ≠ entry.1 ∧
          value merged = some (other.2.evaluate limits scope)) := by
  intro own merged value
  have hvalue (conditionals : Conditionals) : value conditionals =
      (conditionals.deciding? limits scope name).map fun entry =>
        entry.2.evaluate limits scope :=
    Conditionals.get?_evaluate limits scope name conditionals
  refine ⟨fun hnone => ?_, fun entry hentry => ⟨fun hstays => ?_, fun hstays => ?_⟩⟩
  · have hnone : own.deciding? limits scope name = none := by
      rw [hvalue, Option.map_eq_none_iff] at hnone
      exact hnone
    have hmerged : merged.deciding? limits scope name = _ :=
      Conditionals.deciding?_extend_of_none limits scope name hown hfallback hnone
    rw [hvalue, hvalue, hmerged]
  · have hmerged : merged.deciding? limits scope name = some entry :=
      Conditionals.deciding?_extend_of_stays limits scope name hown hfallback hentry hstays
    rw [hvalue, hvalue, hmerged, hentry]
  · obtain ⟨other, hmerged, hne⟩ :=
      Conditionals.deciding?_extend_of_not_stays limits scope name hown hfallback hentry hstays
    have hmerged : merged.deciding? limits scope name = some other := hmerged
    refine ⟨other, hmerged, hne, ?_⟩
    rw [hvalue, hmerged, Option.map_some]

/-- The template's conditional takes the last place for its variable in the fallback, so that it
stays deciding; the fallback decides about the variable that the template leaves open. -/
theorem evaluate_withFallback_color :
    let template : Template := ⟨[], [("color", ⟨.string "own", []⟩)], []⟩
    let fallback : Conditionals := [("<<slot>>", ⟨.string "other", []⟩),
      ("color", ⟨.string "external", []⟩), ("size", ⟨.string "large", []⟩)]
    let scope : Variables := [("slot", .string "color")]
    let value (conditionals : Conditionals) (name : String) :=
      Fields.get? (conditionals.evaluate .standard scope) name
    let merged := (template.withFallback fallback).conditionals
    template.conditionals.Distinct ∧ fallback.Distinct ∧
      value merged "color" = value template.conditionals "color" ∧
      value merged "size" = value fallback "size" := by
  intro template fallback scope value merged
  have hown : template.conditionals.Distinct := by decide
  have hfallback : fallback.Distinct := by decide
  have hcolor : Limits.standard.resolveName scope "color" = "color" := by decide +kernel
  have hsize : Limits.standard.resolveName scope "size" = "size" := by decide +kernel
  have hcontract := evaluate_withFallback template fallback hown hfallback .standard scope
  have hdeciding : template.conditionals.deciding? .standard scope "color" =
      some ("color", ⟨.string "own", []⟩) := by
    simp [template, Conditionals.deciding?, hcolor]
  have hstays : template.conditionals.StaysDeciding fallback .standard scope "color"
      ("color", ⟨.string "own", []⟩) := by
    refine .inr ⟨by simp [template, fallback, Fields.names], ?_⟩
    simp [fallback, Conditionals.deciding?, hcolor, hsize]
  have hopen : value template.conditionals "size" = none := by
    simp [value, template, Conditionals.evaluate, hcolor, Fields.get?_ofList]
  exact ⟨hown, hfallback, ((hcontract "color").2 _ hdeciding).1 hstays, (hcontract "size").1 hopen⟩

/-- A conditional of a template takes a place of the fallback, and a later conditional of the
fallback, written in another way, decides about its variable. -/
theorem evaluate_withFallback_displaced :
    let template : Template := ⟨[], [("color", ⟨.string "own", []⟩)], []⟩
    let fallback : Conditionals := [("color", ⟨.string "external", []⟩),
      ("<<slot>>", ⟨.string "other", []⟩)]
    let scope : Variables := [("slot", .string "color"), ("key", .string "k")]
    let value (conditionals : Conditionals) :=
      Fields.get? (conditionals.evaluate .standard scope) "color"
    value template.conditionals = some (.string "own") ∧
      value (template.withFallback fallback).conditionals = some (.string "other") := by
  intro template fallback scope value
  have hcolor : Limits.standard.resolveName scope "color" = "color" := by decide +kernel
  have hslot : Limits.standard.resolveName scope "<<slot>>" = "color" := by decide +kernel
  have hvalue (text : String) (h : Placeholder.occurs text = false) :
      Conditional.evaluate ⟨.string text, []⟩ .standard scope = .string text :=
    Limits.resolveText_of_not_occurs .standard scope h
  constructor
  · simp [value, template, Conditionals.get?_evaluate, Conditionals.deciding?, hcolor,
      hvalue "own" (by decide)]
  · simp [value, template, fallback, withFallback, Fields.extend, Fields.insert,
      Conditionals.get?_evaluate, Conditionals.deciding?, hslot,
      hvalue "other" (by decide)]

end Template

end PosterOverlay
