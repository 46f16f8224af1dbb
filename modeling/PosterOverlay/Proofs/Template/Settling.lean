import Mathlib.Data.List.Basic
import Mathlib.Logic.Function.Iterate
import PosterOverlay.Proofs.Value.Sameness
import PosterOverlay.Template.Environment

/-!
# When variables have settled

Settling stops after a pass whose result is the same as what it started from, where the order of the
variables does not count. A pass resolves texts one after another, so that later ones already see
the new values, and it renames variables, drops some and merges others; so it might seem that such
changes could make up for each other. They cannot: a new name is never one that was in use, and of
values only texts are replaced. A pass that comes to the same variables has changed nothing at all,
and any further pass would change nothing either.
-/

namespace PosterOverlay

namespace Variables

variable (limits : Limits)

/-! ### Resolving the values -/

/-- What was resolved before stays at the front. -/
theorem prefix_refreshFrom (done rest : Variables) : done <+: refreshFrom limits done rest := by
  induction rest generalizing done with
  | nil => exact List.prefix_rfl
  | cons entry rest ih =>
    obtain ⟨name, value⟩ := entry
    exact (List.prefix_append done _).trans (ih _)

/-- Resolving the values keeps the names. -/
theorem names_refreshFrom (done rest : Variables) :
    Fields.names (refreshFrom limits done rest) = Fields.names done ++ Fields.names rest := by
  induction rest generalizing done with
  | nil => simp [refreshFrom, Fields.names]
  | cons entry rest ih =>
    obtain ⟨name, value⟩ := entry
    rw [refreshFrom, ih]
    simp [Fields.names]

/-- Resolving the values keeps the names. -/
theorem names_refresh (scope : Variables) :
    Fields.names (refresh limits scope) = Fields.names scope := by
  rw [refresh, names_refreshFrom]
  rfl

/-- Resolving the values keeps names distinct. -/
theorem distinct_refresh {scope : Variables} (hdistinct : scope.Distinct) :
    Fields.Distinct (refresh limits scope) := by
  rwa [Fields.Distinct, names_refresh]

/-- Resolving the values in order changes none of them exactly when each unresolved text is resolved
to itself. The induction is on the variables still to come; those before it are as they were, so
that all texts are resolved among the same variables. -/
theorem refreshFrom_eq_self_iff (done rest : Variables) :
    refreshFrom limits done rest = done ++ rest ↔
      ∀ entry ∈ rest, entry.2.isUnresolved = true →
        limits.resolve (done ++ rest) entry.2 = entry.2 := by
  induction rest generalizing done with
  | nil => simp [refreshFrom]
  | cons entry rest ih =>
    obtain ⟨name, value⟩ := entry
    rw [refreshFrom, List.forall_mem_cons]
    generalize hfresh : (if value.isUnresolved = true then
      limits.resolve (done ++ (name, value) :: rest) value else value) = fresh
    dsimp only
    have hkept : fresh = value ↔
        (value.isUnresolved = true →
          limits.resolve (done ++ (name, value) :: rest) value = value) := by
      rw [← hfresh]
      split
      · rename_i hunresolved
        exact ⟨fun heq _ => heq, fun heq => heq hunresolved⟩
      · rename_i hresolved
        exact ⟨fun _ hunresolved => absurd hunresolved hresolved, fun _ => rfl⟩
    rw [← hkept, List.append_cons done (name, value) rest]
    constructor
    · intro h
      have hprefix := prefix_refreshFrom limits (done ++ [(name, fresh)]) rest
      rw [h, List.append_assoc, List.prefix_append_right_inj] at hprefix
      have heq : fresh = value := by simpa using hprefix
      rw [heq] at h
      exact ⟨heq, (ih _).mp h⟩
    · rintro ⟨heq, hrest⟩
      rw [heq]
      exact (ih _).mpr hrest

/-- Resolving the values changes none of them exactly when each unresolved text is resolved to
itself. -/
theorem refresh_eq_self_iff (scope : Variables) :
    refresh limits scope = scope ↔
      ∀ entry ∈ scope, entry.2.isUnresolved = true → limits.resolve scope entry.2 = entry.2 :=
  refreshFrom_eq_self_iff limits [] scope

/-- If resolving the values comes to the same value for each name, then it changes none of them: an
unresolved text is the same as no other value. -/
theorem refreshFrom_eq_self_of_same {done rest : Variables}
    (hdistinct : Fields.Distinct (done ++ rest))
    (hsame : ∀ entry ∈ refreshFrom limits done rest, ∃ other,
      Fields.get? (done ++ rest) entry.1 = some other ∧ entry.2.same other = true) :
    refreshFrom limits done rest = done ++ rest := by
  induction rest generalizing done with
  | nil => simp [refreshFrom]
  | cons entry rest ih =>
    obtain ⟨name, value⟩ := entry
    rw [refreshFrom] at hsame ⊢
    generalize hfresh : (if value.isUnresolved = true then
      limits.resolve (done ++ (name, value) :: rest) value else value) = fresh at hsame ⊢
    have hmem : (name, fresh) ∈ refreshFrom limits (done ++ [(name, fresh)]) rest :=
      (prefix_refreshFrom limits _ rest).subset
        (List.mem_append_right _ (List.mem_singleton_self _))
    obtain ⟨other, hother, hequal⟩ := hsame _ hmem
    have hvalue : Fields.get? (done ++ (name, value) :: rest) name = some value :=
      hdistinct.get?_eq_some_iff.mpr (by simp)
    cases hother.symm.trans hvalue
    have heq : fresh = value := by
      cases value with
      | string s => exact Value.eq_of_same_string hequal
      | _ => exact hfresh.symm
    rw [heq] at hsame ⊢
    rw [List.append_cons done (name, value) rest] at hdistinct hsame ⊢
    exact ih hdistinct hsame

/-! ### Renaming -/

/-- A name that settling gives to a variable is its own, or one that no variable has. -/
theorem settledName?_cases {limits : Limits} {scope : Variables} {name new : String}
    (h : settledName? limits scope name = some new) :
    new = name ∨ Fields.contains scope new = false := by
  unfold settledName? at h
  split at h
  · dsimp only at h
    split at h
    · cases h
    · rename_i hfree
      cases h
      by_cases hname : limits.resolveName scope name = name
      · exact .inl hname
      · right
        rw [Bool.eq_false_iff]
        exact fun hbound => hfree ⟨hname, hbound⟩
  · cases h
    exact .inl rfl

/-- A variable keeps its name exactly when this is resolved to itself or holds no placeholder. -/
theorem settledName?_eq_self_iff (scope : Variables) (name : String) :
    settledName? limits scope name = some name ↔
      (Placeholder.occurs name = true → limits.resolveName scope name = name) := by
  unfold settledName?
  dsimp only
  split
  · rename_i hoccurs
    by_cases hname : limits.resolveName scope name = name
    · simp [hname]
    · by_cases hbound : Fields.contains scope (limits.resolveName scope name) = true <;>
        simp [hname, hbound, hoccurs]
  · rename_i hplain
    simp [hplain]

/-- The names after renaming are those that variables get. -/
theorem mem_names_rename {limits : Limits} {scope : Variables} {name : String} :
    name ∈ Fields.names (rename limits scope) ↔
      ∃ entry ∈ scope, settledName? limits scope entry.1 = some name := by
  rw [rename, Fields.mem_names_extendNew, Fields.names, Fields.names, List.map_nil,
    or_iff_right List.not_mem_nil]
  simp only [List.mem_map, List.mem_filterMap, Option.map_eq_some_iff]
  constructor
  · rintro ⟨_, ⟨entry, hentry, new, hnew, rfl⟩, rfl⟩
    exact ⟨entry, hentry, hnew⟩
  · rintro ⟨entry, hentry, hnew⟩
    exact ⟨_, ⟨entry, hentry, name, hnew, rfl⟩, rfl⟩

/-- Where no name comes up that was not in use, renaming only drops variables. -/
theorem rename_eq_filter {limits : Limits} {scope : Variables} (hdistinct : scope.Distinct)
    (hnames : ∀ name ∈ Fields.names (rename limits scope), name ∈ Fields.names scope) :
    rename limits scope =
      List.filter (fun entry => settledName? limits scope entry.1 = some entry.1) scope := by
  have hentries : List.filterMap (fun entry : String × Value =>
      (settledName? limits scope entry.1).map fun name => (name, entry.2)) scope =
      List.filter (fun entry => settledName? limits scope entry.1 = some entry.1) scope := by
    rw [← List.filterMap_eq_filter]
    refine List.filterMap_congr fun entry hentry => ?_
    cases hsettled : settledName? limits scope entry.1 with
    | none => simp [Option.guard, hsettled]
    | some new =>
      have hused := hnames new (mem_names_rename.mpr ⟨entry, hentry, hsettled⟩)
      rw [← Fields.contains_iff_mem_names] at hused
      rcases settledName?_cases hsettled with rfl | hfree
      · simp [Option.guard, hsettled]
      · rw [hused] at hfree
        cases hfree
  rw [rename, hentries]
  exact Fields.extendNew_of_distinct (hdistinct.filter _)

/-- Where no name comes up that was not in use and no variable is dropped, renaming changes
nothing. -/
theorem rename_eq_self_of_length {limits : Limits} {scope : Variables}
    (hdistinct : scope.Distinct)
    (hnames : ∀ name ∈ Fields.names (rename limits scope), name ∈ Fields.names scope)
    (hlength : (rename limits scope).length = List.length scope) :
    rename limits scope = scope := by
  rw [rename_eq_filter hdistinct hnames] at hlength ⊢
  exact List.filter_sublist.eq_of_length hlength

/-- Renaming changes nothing exactly when every name with a placeholder is resolved to itself. -/
theorem rename_eq_self_iff {scope : Variables} (hdistinct : scope.Distinct) :
    rename limits scope = scope ↔
      ∀ name ∈ Fields.names scope, Placeholder.occurs name = true →
        limits.resolveName scope name = name := by
  simp only [← settledName?_eq_self_iff]
  constructor
  · intro h
    have hfilter := rename_eq_filter hdistinct fun name hname => h ▸ hname
    rw [h] at hfilter
    have hkept := List.filter_eq_self.mp hfilter.symm
    exact List.forall_mem_map.mpr fun entry hentry => by simpa using hkept entry hentry
  · intro h
    have hnames (name : String) (hname : name ∈ Fields.names (rename limits scope)) :
        name ∈ Fields.names scope := by
      obtain ⟨entry, hentry, hsettled⟩ := mem_names_rename.mp hname
      cases hsettled.symm.trans (h _ (List.mem_map_of_mem hentry))
      exact List.mem_map_of_mem hentry
    rw [rename_eq_filter hdistinct hnames, List.filter_eq_self]
    exact fun entry hentry => by simpa using h _ (List.mem_map_of_mem hentry)

/-! ### Passes -/

/-- Settling passes keep names distinct. -/
theorem distinct_settleOnce {scope : Variables} (hdistinct : scope.Distinct) :
    Fields.Distinct (settleOnce limits scope) := by
  unfold settleOnce
  dsimp only
  split
  · exact Fields.distinct_nil.extendNew _
  · exact distinct_refresh limits hdistinct

/-- A settling pass that brings up no new name and drops no variable has renamed nothing. -/
theorem settleOnce_eq_refresh {limits : Limits} {scope : Variables} (hdistinct : scope.Distinct)
    (hnames : ∀ name ∈ Fields.names (settleOnce limits scope), name ∈ Fields.names scope)
    (hlength : (settleOnce limits scope).length = List.length scope) :
    settleOnce limits scope = refresh limits scope := by
  have hsame := names_refresh limits scope
  have hsize : (refresh limits scope).length = List.length scope := by
    have := congrArg List.length hsame
    rwa [Fields.names, Fields.names, List.length_map, List.length_map] at this
  unfold settleOnce at hnames hlength ⊢
  dsimp only at hnames hlength ⊢
  split
  · rename_i hplaceholder
    rw [if_pos hplaceholder] at hnames hlength
    rw [← hsame] at hnames
    exact rename_eq_self_of_length (distinct_refresh limits hdistinct) hnames
      (hlength.trans hsize.symm)
  · rfl

/-- A settling pass that comes to the same variables, in whatever order, has changed nothing. -/
theorem settleOnce_eq_self_of_same {limits : Limits} {scope : Variables}
    (hdistinct : scope.Distinct)
    (h : Variables.same (settleOnce limits scope) scope = true) :
    settleOnce limits scope = scope := by
  rw [Variables.same, Bool.and_eq_true, beq_iff_eq] at h
  obtain ⟨hlength, hwithin⟩ := h
  have hvalues := Value.within_iff.mp hwithin
  have hnames (name : String) (hname : name ∈ Fields.names (settleOnce limits scope)) :
      name ∈ Fields.names scope := by
    obtain ⟨entry, hentry, rfl⟩ := List.mem_map.mp hname
    obtain ⟨other, hother, _⟩ := hvalues entry hentry
    exact List.mem_map.mpr ⟨_, Fields.mem_of_get? hother, rfl⟩
  have hrefresh := settleOnce_eq_refresh hdistinct hnames hlength
  rw [hrefresh] at hvalues ⊢
  exact refreshFrom_eq_self_of_same limits hdistinct hvalues

/-- A settling pass changes nothing exactly when there is nothing left to resolve: every unresolved
text and every name with a placeholder is resolved to itself. -/
theorem settleOnce_eq_self_iff {scope : Variables} (hdistinct : scope.Distinct) :
    settleOnce limits scope = scope ↔
      (∀ entry ∈ scope, entry.2.isUnresolved = true → limits.resolve scope entry.2 = entry.2) ∧
        ∀ name ∈ Fields.names scope, Placeholder.occurs name = true →
          limits.resolveName scope name = name := by
  rw [← refresh_eq_self_iff, ← rename_eq_self_iff limits hdistinct]
  constructor
  · intro h
    have hkept : settleOnce limits scope = refresh limits scope :=
      settleOnce_eq_refresh hdistinct (fun name hname => h ▸ hname) (congrArg List.length h)
    have hrefresh : refresh limits scope = scope := hkept.symm.trans h
    refine ⟨hrefresh, ?_⟩
    unfold settleOnce at h
    dsimp only at h
    rw [hrefresh] at h
    split at h
    · exact h
    · rename_i hplain
      refine (rename_eq_self_iff limits hdistinct).mpr fun name hname hoccurs => ?_
      obtain ⟨entry, hentry, rfl⟩ := List.mem_map.mp hname
      exact absurd (List.any_eq_true.mpr ⟨entry, hentry, hoccurs⟩) hplain
  · rintro ⟨hrefresh, hrename⟩
    unfold settleOnce
    dsimp only
    rw [hrefresh, hrename, ite_self]

/-- Stopping early makes no difference: settling up to a number of times is making that many passes.
The induction is on the passes; where they stop, every further one keeps the variables. -/
theorem settleUpTo_eq_iterate {scope : Variables} (hdistinct : scope.Distinct) (count : Nat) :
    settleUpTo limits count scope = (settleOnce limits)^[count] scope := by
  induction count generalizing scope with
  | zero => rfl
  | succ count ih =>
    rw [settleUpTo, Function.iterate_succ_apply]
    split
    · rename_i hsame
      have hkept := settleOnce_eq_self_of_same hdistinct hsame
      rw [hkept, Function.iterate_fixed hkept]
    · exact ih (distinct_settleOnce limits hdistinct)

/-- Settling variables is making as many passes as the limits allow, although it stops at the first
one that comes to the same variables in whatever order. Such a pass has changed nothing. And a pass
changes nothing exactly when every unresolved text and every name with a placeholder is resolved to
itself. -/
theorem settle_eq_iterate {scope : Variables} (hdistinct : scope.Distinct) :
    settle limits scope = (settleOnce limits)^[limits.passes] scope ∧
      (Variables.same (settleOnce limits scope) scope = true → settleOnce limits scope = scope) ∧
      (settleOnce limits scope = scope ↔
        (∀ entry ∈ scope, entry.2.isUnresolved = true → limits.resolve scope entry.2 = entry.2) ∧
          ∀ name ∈ Fields.names scope, Placeholder.occurs name = true →
            limits.resolveName scope name = name) :=
  ⟨settleUpTo_eq_iterate limits hdistinct limits.passes, settleOnce_eq_self_of_same hdistinct,
    settleOnce_eq_self_iff limits hdistinct⟩

/-- A font is found only after the variable that holds it has been renamed, so that settling takes
more than one pass; what refers to itself stays as it is. -/
theorem settle_eq_iterate_font :
    let scope : Variables := [("font", .string "<<left_font>>"), ("<<side>>_font", .string "Inter"),
      ("side", .string "left"), ("loop", .string "a<<loop>>")]
    let settled := settle .standard scope
    scope.Distinct ∧ settled = (settleOnce .standard)^[5] scope ∧
      settled.map (fun entry => (entry.1, entry.2.text)) =
        [("font", "Inter"), ("left_font", "Inter"), ("side", "left"), ("loop", "a<<loop>>")] ∧
      settled.Distinct ∧ Variables.same (settleOnce .standard settled) settled = true ∧
      settleOnce .standard settled = settled ∧
      Limits.standard.resolve settled (.string "a<<loop>>") = .string "a<<loop>>" := by
  intro scope settled
  have hscope : scope.Distinct := by decide
  have hsettled : settled.Distinct := by decide +kernel
  have hsame : Variables.same (settleOnce .standard settled) settled = true := by decide +kernel
  obtain ⟨hiterate, _, _⟩ := settle_eq_iterate .standard hscope
  obtain ⟨_, hkept, hfixed⟩ := settle_eq_iterate .standard hsettled
  have hloop : (Fields.get? settled "loop").bind Value.string? = some "a<<loop>>" := by
    decide +kernel
  obtain ⟨value, hvalue, htext⟩ := Option.bind_eq_some_iff.mp hloop
  cases value with
  | string text =>
    cases htext
    have hresolved := (hfixed.mp (hkept hsame)).1 _ (Fields.mem_of_get? hvalue) (by decide)
    exact ⟨hscope, hiterate, by decide +kernel, hsettled, hsame, hkept hsame, hresolved⟩
  | _ => cases htext

end Variables

end PosterOverlay
