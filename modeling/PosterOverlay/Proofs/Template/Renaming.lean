import PosterOverlay.Proofs.Template.Precedence
import PosterOverlay.Proofs.Template.Settling

/-!
# Renaming loses no variable unnoticed

Variables are renamed against the variables as they were: one whose name is resolved to a name in
use makes way for the variable of that name. All other variables stay in their order, and those
whose names hold no placeholder keep their values. The name that a variable is resolved to is then
in use, with one exception: if it is itself the name of a variable that moves on to another name,
nobody takes the place of that variable.
-/

namespace PosterOverlay

namespace Fields

variable {α : Type}

/-- Filling fields up takes over some of the later entries, in their order. -/
theorem exists_sublist_extendNew (fields later : Fields α) :
    ∃ kept : Fields α, kept.Sublist later ∧ fields.extendNew later = fields ++ kept := by
  unfold extendNew
  induction later generalizing fields with
  | nil => exact ⟨[], List.Sublist.slnil, (List.append_nil fields).symm⟩
  | cons entry later ih =>
    obtain ⟨kept, hkept, heq⟩ := ih (insertNew entry.1 entry.2 fields)
    rw [List.foldl_cons, heq, insertNew]
    split
    · exact ⟨kept, hkept.cons entry, rfl⟩
    · exact ⟨entry :: kept, hkept.cons_cons entry, by simp⟩

end Fields

namespace Variables

variable {limits : Limits} {scope : Variables}

/-- A variable gets the name that its own is resolved to, if it has this name already or no other
variable has. -/
theorem settledName?_eq_some_iff_resolveName {name new : String} :
    settledName? limits scope name = some new ↔
      limits.resolveName scope name = new ∧
        (new = name ∨ new ∉ Fields.names scope) := by
  rw [← Fields.contains_eq_false_iff]
  unfold settledName?
  dsimp only
  split
  · split
    · rename_i htaken
      constructor
      · nofun
      · rintro ⟨rfl, hname | hfree⟩
        · exact absurd hname htaken.1
        · rw [htaken.2] at hfree
          cases hfree
    · rename_i hfree
      rw [Option.some.injEq]
      refine (and_iff_left_of_imp ?_).symm
      rintro rfl
      rwa [not_and_or, not_not, Bool.not_eq_true] at hfree
  · rename_i hplain
    rw [limits.resolveName_of_not_occurs scope (Bool.not_eq_true _ ▸ hplain), Option.some.injEq]
    exact (and_iff_left_of_imp fun heq => .inl heq.symm).symm

/-- The variable of that name moves on: its name is resolved to another one. -/
def Moves (limits : Limits) (scope : Variables) (name : String) : Prop :=
  name ∈ Fields.names scope ∧ limits.resolveName scope name ≠ name

/-- The name that the name of a variable is resolved to is in use after renaming, unless a variable
that had it moves on: nobody else takes the name of a variable. -/
theorem resolveName_mem_names_rename_iff {name : String} (hname : name ∈ Fields.names scope) :
    limits.resolveName scope name ∈ Fields.names (rename limits scope) ↔
      ¬ Moves limits scope (limits.resolveName scope name) := by
  simp only [mem_names_rename, settledName?_eq_some_iff_resolveName]
  constructor
  · rintro ⟨entry, _, hentry, hkept | hfree⟩ ⟨hused, hmoves⟩
    · rw [hkept] at hentry hmoves
      exact hmoves hentry
    · exact hfree hused
  · intro hstays
    by_cases hused : limits.resolveName scope name ∈ Fields.names scope
    · obtain ⟨entry, hentry, heq⟩ := List.mem_map.mp hused
      have hsame := not_not.mp fun hmoves => hstays ⟨hused, hmoves⟩
      exact ⟨entry, hentry, heq ▸ hsame, .inl heq.symm⟩
    · obtain ⟨entry, hentry, rfl⟩ := List.mem_map.mp hname
      exact ⟨entry, hentry, rfl, .inr hused⟩

/-- A variable whose name holds no placeholder stays where it is. -/
theorem not_moves_of_not_occurs {name : String} (hplain : Placeholder.occurs name = false) :
    ¬ Moves limits scope name :=
  fun hmoves => hmoves.2 (limits.resolveName_of_not_occurs scope hplain)

/-- Renaming keeps some of the variables, in their order, each under the name that its own is
resolved to. -/
theorem exists_sublist_rename (limits : Limits) (scope : Variables) :
    ∃ kept : Variables, kept.Sublist scope ∧
      rename limits scope =
        kept.map fun entry => (limits.resolveName scope entry.1, entry.2) := by
  have hentries : List.filterMap (fun entry : String × Value =>
      (settledName? limits scope entry.1).map fun name => (name, entry.2)) scope =
      (List.filter (fun entry => (settledName? limits scope entry.1).isSome) scope).map
        fun entry => (limits.resolveName scope entry.1, entry.2) := by
    rw [← List.filterMap_eq_filter, List.map_filterMap]
    refine List.filterMap_congr fun entry _ => ?_
    cases hsettled : settledName? limits scope entry.1 with
    | none => simp [Option.guard, hsettled]
    | some new =>
      have hnew := (settledName?_eq_some_iff_resolveName.mp hsettled).1
      simp [Option.guard, hsettled, hnew]
  obtain ⟨named, hnamed, heq⟩ := Fields.exists_sublist_extendNew [] (List.filterMap
    (fun entry : String × Value => (settledName? limits scope entry.1).map
      fun name => (name, entry.2)) scope)
  rw [hentries, List.sublist_map_iff] at hnamed
  obtain ⟨kept, hkept, rfl⟩ := hnamed
  exact ⟨kept, hkept.trans List.filter_sublist, heq⟩

/-- What renaming keeps. A variable whose name holds no placeholder keeps its value. The name that
the name of a variable is resolved to is in use afterwards, unless it was the name of a variable that
moves on, which it cannot be without a placeholder. The variables that are kept stay in their order,
each name once, and one that is not kept makes way for another: for one that has the name that it is
resolved to, or for one that had this name and moves on. -/
theorem rename_makes_way (limits : Limits) (scope : Variables) :
    (∀ name ∈ Fields.names scope, Placeholder.occurs name = false →
      Fields.get? (rename limits scope) name = Fields.get? scope name) ∧
    (∀ name ∈ Fields.names scope, Placeholder.occurs name = true →
      let resolved := limits.resolveName scope name
      (resolved ∈ Fields.names (rename limits scope) ↔ ¬ Moves limits scope resolved) ∧
        (Placeholder.occurs resolved = false →
          resolved ∈ Fields.names (rename limits scope))) ∧
    Fields.Distinct (rename limits scope) ∧
    ∃ kept : Variables, kept.Sublist scope ∧
      rename limits scope =
        (kept.map fun entry => (limits.resolveName scope entry.1, entry.2)) ∧
      ∀ entry ∈ scope, entry ∉ kept → ∃ other ∈ scope, other ≠ entry ∧
        (other ∈ kept ∧ limits.resolveName scope other.1 = limits.resolveName scope entry.1 ∨
          other.1 = limits.resolveName scope entry.1 ∧ Moves limits scope other.1) := by
  refine ⟨fun name hname hplain => ?_, fun name hname _ => ?_, Fields.distinct_nil.extendNew _, ?_⟩
  · exact get?_rename limits hplain ((Fields.contains_iff_mem_names scope name).mpr hname)
  · have hiff : limits.resolveName scope name ∈ Fields.names (rename limits scope) ↔
        ¬ Moves limits scope (limits.resolveName scope name) :=
      resolveName_mem_names_rename_iff hname
    exact ⟨hiff, fun hplain => hiff.mpr (not_moves_of_not_occurs hplain)⟩
  · obtain ⟨kept, hkept, hrename⟩ := exists_sublist_rename limits scope
    refine ⟨kept, hkept, hrename, fun entry hentry hdropped => ?_⟩
    by_cases hmoves : Moves limits scope (limits.resolveName scope entry.1)
    · obtain ⟨other, hother, heq⟩ := List.mem_map.mp hmoves.1
      refine ⟨other, hother, ?_, .inr ⟨heq, heq ▸ hmoves⟩⟩
      rintro rfl
      exact hmoves.2 (congrArg (limits.resolveName scope) heq.symm)
    · have hbound := (resolveName_mem_names_rename_iff (List.mem_map_of_mem hentry)).mpr hmoves
      rw [hrename, Fields.names, List.map_map] at hbound
      obtain ⟨other, hother, heq⟩ := List.mem_map.mp hbound
      refine ⟨other, hkept.subset hother, ?_, .inl ⟨hother, heq⟩⟩
      rintro rfl
      exact hdropped hother

/-- An offset whose side is known makes way for the offset of that side, which keeps its value. -/
theorem rename_makes_way_offset :
    let scope : Variables := [("<<side>>_offset", .int 15), ("side", .string "top"),
      ("top_offset", .int 30)]
    let renamed := rename .standard scope
    Limits.standard.resolveName scope "<<side>>_offset" = "top_offset" ∧
      "top_offset" ∈ Fields.names renamed ∧
      Fields.get? renamed "top_offset" = some (.int 30) ∧ Fields.Distinct renamed := by
  intro scope renamed
  obtain ⟨hplain, hresolved, hdistinct, _⟩ := rename_makes_way .standard scope
  have hname : Limits.standard.resolveName scope "<<side>>_offset" = "top_offset" := by
    decide +kernel
  have hbound := (hresolved "<<side>>_offset" (by decide) (by decide)).2
  rw [hname] at hbound
  exact ⟨hname, hbound (by decide), hplain "top_offset" (by decide) (by decide), hdistinct⟩

/-- A variable makes way for another that moves on itself, so that the name it is resolved to is not
in use afterwards. First, the name is the text of a list, which is only scanned as the name of the
other variable. Then, the depth is used up after one scan, and two variables make way for each
other. -/
theorem rename_leaves_name_open :
    let listed : Variables := [("<<units>>", .int 1), ("[\"<<unit>>\"]", .int 2),
      ("units", .sequence [.string "<<unit>>"]), ("unit", .string "px")]
    let circle : Variables := [("<<left>>", .int 1), ("<<right>>", .int 2),
      ("left", .string "<<right>>"), ("right", .string "<<left>>")]
    let shallow : Limits := ⟨1, 5, 3, 65536⟩
    (Placeholder.occurs "<<units>>" = true ∧
      Limits.standard.resolveName listed "<<units>>" = "[\"<<unit>>\"]" ∧
      "[\"<<unit>>\"]" ∉ Fields.names (rename .standard listed) ∧
      Fields.names (rename .standard listed) = ["[\"px\"]", "units", "unit"]) ∧
    (Placeholder.occurs "<<left>>" = true ∧
      shallow.resolveName circle "<<left>>" = "<<right>>" ∧
      "<<right>>" ∉ Fields.names (rename shallow circle) ∧
      Fields.names (rename shallow circle) = ["left", "right"]) := by
  decide +kernel

end Variables

end PosterOverlay
