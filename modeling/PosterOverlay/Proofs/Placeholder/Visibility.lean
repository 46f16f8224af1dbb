import PosterOverlay.Proofs.Placeholder.Standstill

/-!
# What resolving sees of the variables

A variable can be seen when a placeholder may have its name and may stand for its value. Resolving
depends on these variables and on nothing else: neither on the order in which variables are
written, nor on variables that are null or refer to themselves, nor on those whose names still hold
placeholders. It depends on each of them, too, for a placeholder alone already shows the value.
-/

namespace PosterOverlay

/-- A lookup among the entries whose names are kept finds just these. -/
theorem Fields.get?_filter_name {α : Type} (fields : Fields α) (keep : String → Bool)
    (name : String) :
    Fields.get? (List.filter (fun entry => keep entry.1) fields) name =
      if keep name = true then fields.get? name else none := by
  induction fields with
  | nil => simp
  | cons entry rest ih =>
    obtain ⟨bound, value⟩ := entry
    by_cases hname : bound = name
    · subst hname
      cases hkeep : keep bound <;> simp [hkeep, ih]
    · cases hkeep : keep bound <;> simp [hkeep, hname, ih]

/-- A name does not look as if it held a placeholder. -/
theorem Placeholder.not_isName_of_occurs {name : String} (h : occurs name = true) :
    ¬ IsName name := by
  intro hname
  rw [hname.2.not_occurs] at h
  cases h

namespace Variables

/-- A variable of that name and value can be seen: the name may stand in a placeholder, and the
value is neither null nor a text that holds this placeholder. -/
def CanBeSeen (name : String) (value : Value) : Prop :=
  Placeholder.IsName name ∧ value.isNull = false ∧ value.mentions name = false

instance (name : String) (value : Value) : Decidable (CanBeSeen name value) :=
  inferInstanceAs (Decidable (_ ∧ _))

/-- The same variables can be seen in both, in whatever order. -/
def ShowSame (first second : Variables) : Prop :=
  ∀ name value, CanBeSeen name value →
    (Fields.get? first name = some value ↔ Fields.get? second name = some value)

/-- Whatever the limits are, every value and every name is resolved to the same with both. -/
def ResolveAlike (first second : Variables) : Prop :=
  ∀ limits : Limits,
    (∀ value, limits.resolve first value = limits.resolve second value) ∧
      ∀ name, limits.resolveName first name = limits.resolveName second name

/-- Under a name, what a placeholder stands for is what can be seen. -/
theorem visible?_eq_some_iff_canBeSeen {scope : Variables} {name : String} {value : Value}
    (hname : Placeholder.IsName name) :
    scope.visible? name = some value ↔
      CanBeSeen name value ∧ Fields.get? scope name = some value := by
  rw [visible?_eq_some_iff, CanBeSeen]
  constructor
  · rintro ⟨hget, hseen⟩
    exact ⟨⟨hname, hseen⟩, hget⟩
  · rintro ⟨⟨_, hseen⟩, hget⟩
    exact ⟨hget, hseen⟩

/-- Variables show the same exactly when they look alike to placeholders. -/
theorem showSame_iff_lookAlike {first second : Variables} :
    first.ShowSame second ↔ first.LookAlike second := by
  constructor
  · intro h name hname
    ext value
    rw [visible?_eq_some_iff_canBeSeen hname, visible?_eq_some_iff_canBeSeen hname]
    exact and_congr_right (h name value)
  · intro h name value hseen
    have hvisible := congrArg (· = some value) (h name hseen.1)
    simpa [visible?_eq_some_iff_canBeSeen hseen.1, hseen] using hvisible

end Variables

namespace Placeholder

/-- One scan makes of a placeholder what it stands for, and leaves it if that is nothing. -/
theorem scan_written {scope : Variables} {name : String} (hname : IsName name) (length : Nat) :
    scan scope length (written name) =
      (scope.visible? name).getD (.string (written name)) := by
  have hwhole := whole?_written hname
  have hpieces := pieces_of_whole? hwhole
  rw [scan, hwhole, Option.bind_some]
  cases hvisible : scope.visible? name with
  | some value => rfl
  | none =>
    have hroom : ((pieces (written name)).map (Piece.growth scope)).sum ≤
        length - (written name).utf8ByteSize := by
      simp [hpieces, Piece.growth, hvisible]
    simp [splice_of_room hroom, hpieces, Piece.replaced, hvisible]

end Placeholder

namespace Variables

/-- What a placeholder stands for is the value to which one scan resolves it, unless this is the
placeholder itself. -/
theorem visible?_eq_some_iff_resolve {scope : Variables} {name : String} {value : Value}
    (hname : Placeholder.IsName name) :
    scope.visible? name = some value ↔
      (⟨1, 0, 0, 0⟩ : Limits).resolve scope (.string (Placeholder.written name)) = value ∧
        value ≠ .string (Placeholder.written name) := by
  rw [Limits.resolve, Limits.resolveText, Placeholder.scanUpTo_eq_iterate, Function.iterate_one,
    Placeholder.rescan, Placeholder.scan_written hname]
  cases hfound : scope.visible? name with
  | none =>
    rw [Option.getD_none]
    constructor
    · intro h
      cases h
    · rintro ⟨rfl, hne⟩
      exact absurd rfl hne
  | some found =>
    rw [Option.getD_some, Option.some.injEq]
    refine (and_iff_left_of_imp ?_).symm
    rintro rfl rfl
    -- A text that is its own placeholder would hold it.
    have hmentions := (visible?_eq_some_iff.mp hfound).2.2
    rw [Value.mentions, Text.contains_self] at hmentions
    cases hmentions

/-- Variables with which every value is resolved to the same show the same. -/
theorem ResolveAlike.showSame {first second : Variables} (h : first.ResolveAlike second) :
    first.ShowSame second := by
  rw [showSame_iff_lookAlike]
  intro name hname
  ext value
  rw [visible?_eq_some_iff_resolve hname, visible?_eq_some_iff_resolve hname, (h _).1]

/-- Variables that show the same resolve every value and every name alike. -/
theorem ShowSame.resolveAlike {first second : Variables} (h : first.ShowSame second) :
    first.ResolveAlike second := by
  have halike := showSame_iff_lookAlike.mp h
  intro limits
  exact ⟨halike.resolve_eq limits, fun name =>
    congrArg Value.text (halike.scanUpTo_eq limits.length limits.depth name)⟩

/-- Variables that are not to be seen may be left out. -/
theorem showSame_filter_name {scope : Variables} (keep : String → Bool)
    (h : ∀ name value, Fields.get? scope name = some value → CanBeSeen name value →
      keep name = true) :
    scope.ShowSame (List.filter (fun entry => keep entry.1) scope) := by
  intro name value hseen
  rw [Fields.get?_filter_name, Option.ite_none_right_eq_some]
  exact ⟨fun hget => ⟨h name value hget hseen, hget⟩, And.right⟩

/-- Resolving sees the variables whose names may stand in placeholders, unless they are null or
refer to themselves, and it sees nothing else: with two sets of variables everything is resolved
alike exactly when they show the same. So the order of the variables does not matter, and a
variable may be left out when it is null, when it is a text that holds its own placeholder, or when
its name still holds a placeholder. -/
theorem resolveAlike_iff_showSame :
    (∀ first second : Variables, first.ResolveAlike second ↔ first.ShowSame second) ∧
      (∀ first second : Variables, first.Distinct → first.Perm second →
        first.ResolveAlike second) ∧
      ∀ (scope : Variables) (name : String),
        (Fields.get? scope name = some .null ∨
          (∃ s, Fields.get? scope name = some (.string s) ∧
            Text.contains s (Placeholder.written name) = true) ∨
          Placeholder.occurs name = true) →
        scope.ResolveAlike (List.filter (fun entry => entry.1 != name) scope) := by
  refine ⟨fun first second => ⟨ResolveAlike.showSame, ShowSame.resolveAlike⟩,
    fun first second hdistinct hperm => ShowSame.resolveAlike fun name value _ => ?_,
    fun scope name h => (showSame_filter_name (· != name) ?_).resolveAlike⟩
  · rw [hdistinct.get?_perm hperm]
  · intro other value hget hseen
    rw [bne_iff_ne]
    rintro rfl
    obtain ⟨hname, hnull, hmentions⟩ := hseen
    rcases h with hbound | ⟨s, hbound, hs⟩ | hoccurs
    · cases hbound.symm.trans hget
      cases hnull
    · cases hbound.symm.trans hget
      rw [Value.mentions, hs] at hmentions
      cases hmentions
    · exact Placeholder.not_isName_of_occurs hoccurs hname

/-- Five variables of which two can be seen: these two say everything, the five may be written in
any order, and each of the others may be left out. -/
theorem resolveAlike_iff_showSame_badge :
    let scope : Variables := [("side", .string "top"), ("gone", .null),
      ("loop", .string "a <<loop>>"), ("slot_<<side>>", .string "<<gone>>"), ("size", .int 5)]
    let shown : Variables := [("side", .string "top"), ("size", .int 5)]
    let without (name : String) : Variables := List.filter (fun entry => entry.1 != name) scope
    scope.ShowSame shown ∧ scope.ResolveAlike shown ∧
      scope.Distinct ∧ scope.Perm scope.reverse ∧ scope.ResolveAlike scope.reverse ∧
      Fields.get? scope "gone" = some .null ∧ scope.ResolveAlike (without "gone") ∧
      Text.contains "a <<loop>>" "<<loop>>" = true ∧ scope.ResolveAlike (without "loop") ∧
      Placeholder.occurs "slot_<<side>>" = true ∧
      scope.ResolveAlike (without "slot_<<side>>") := by
  intro scope shown without
  have hshown : scope.ShowSame shown :=
    showSame_filter_name (fun name => name == "side" || name == "size") fun name value hvalue =>
      (by decide : ∀ entry ∈ scope, CanBeSeen entry.1 entry.2 →
        (entry.1 == "side" || entry.1 == "size") = true) _ (Fields.mem_of_get? hvalue)
  have hdistinct : scope.Distinct := by decide
  have hperm : scope.Perm scope.reverse := (List.reverse_perm scope).symm
  have hloop : Text.contains "a <<loop>>" "<<loop>>" = true := by decide
  have hside : Placeholder.occurs "slot_<<side>>" = true := by decide
  obtain ⟨hsame, horder, hleft⟩ := resolveAlike_iff_showSame
  exact ⟨hshown, (hsame scope shown).mpr hshown,
    hdistinct, hperm, horder scope scope.reverse hdistinct hperm,
    rfl, hleft scope "gone" (.inl rfl), hloop, hleft scope "loop" (.inr (.inl ⟨_, rfl, hloop⟩)),
    hside, hleft scope "slot_<<side>>" (.inr (.inr hside))⟩

end Variables

end PosterOverlay
