import PosterOverlay.Document.Shorthand
import PosterOverlay.Proofs.Text.Splitting

/-!
# Expanding shorthand again

Once a rating is split, what is left under its name holds no separator, and splitting other ratings
does not touch it. So expanding is done once and for all: of several expansions only the one that
reaches furthest counts. Nothing else is written than the ratings and their images, and everything
stays where it is.
-/

namespace PosterOverlay

/-- The later fields arise from the others by writing under certain names: each entry keeps its
place and its name, its value changes under such a name only, and so are the names of the entries
that are added at the end. -/
inductive Fields.WrittenUnder {α : Type} (allowed : String → Prop) : Fields α → Fields α → Prop where
  /-- Entries are added at the end. -/
  | added {later : Fields α} (h : ∀ entry ∈ later, allowed entry.1) : WrittenUnder allowed [] later
  /-- An entry is kept. -/
  | kept (entry : String × α) {rest later : Fields α} (hrest : WrittenUnder allowed rest later) :
      WrittenUnder allowed (entry :: rest) (entry :: later)
  /-- The value of an entry is changed. -/
  | changed {name : String} (h : allowed name) (old new : α) {rest later : Fields α}
      (hrest : WrittenUnder allowed rest later) :
      WrittenUnder allowed ((name, old) :: rest) ((name, new) :: later)

namespace Fields.WrittenUnder

variable {α : Type} {allowed : String → Prop} {fields later last : Fields α}

/-- Nothing is written. -/
theorem refl (allowed : String → Prop) (fields : Fields α) : WrittenUnder allowed fields fields := by
  induction fields with
  | nil => exact .added nofun
  | cons entry rest ih => exact .kept entry ih

/-- A name is bound. -/
theorem insert {name : String} (h : allowed name) (value : α) (fields : Fields α) :
    WrittenUnder allowed fields (Fields.insert name value fields) := by
  induction fields with
  | nil => exact .added (List.forall_mem_singleton.mpr h)
  | cons entry rest ih =>
    obtain ⟨bound, old⟩ := entry
    rw [Fields.insert]
    split
    · rename_i heq
      exact .changed (heq ▸ h) old value (refl allowed rest)
    · exact .kept _ ih

/-- Where all names may be written under, they still may be after writing. -/
theorem forall_allowed (h : WrittenUnder allowed fields later)
    (hfields : ∀ entry ∈ fields, allowed entry.1) : ∀ entry ∈ later, allowed entry.1 := by
  induction h with
  | added h => exact h
  | kept entry hrest ih =>
    obtain ⟨hentry, hrest'⟩ := List.forall_mem_cons.mp hfields
    exact List.forall_mem_cons.mpr ⟨hentry, ih hrest'⟩
  | changed hname old new hrest ih =>
    exact List.forall_mem_cons.mpr ⟨hname, ih (List.forall_mem_cons.mp hfields).2⟩

/-- One writing comes after another. -/
theorem trans (h : WrittenUnder allowed fields later) (h' : WrittenUnder allowed later last) :
    WrittenUnder allowed fields last := by
  induction h generalizing last with
  | added h => exact .added (h'.forall_allowed h)
  | kept entry hrest ih =>
    cases h' with
    | kept _ hrest' => exact .kept entry (ih hrest')
    | changed hname old new hrest' => exact .changed hname old new (ih hrest')
  | changed hname old new hrest ih =>
    cases h' with
    | kept _ hrest' => exact .changed hname old new (ih hrest')
    | changed _ _ newer hrest' => exact .changed hname old newer (ih hrest')

/-- More names may be written under. -/
theorem mono {more : String → Prop} (hmore : ∀ name, allowed name → more name)
    (h : WrittenUnder allowed fields later) : WrittenUnder more fields later := by
  induction h with
  | added h => exact .added fun entry hentry => hmore _ (h entry hentry)
  | kept entry hrest ih => exact .kept entry ih
  | changed hname old new hrest ih => exact .changed (hmore _ hname) old new ih

end Fields.WrittenUnder

namespace Variables

/-- The two parts of a numbered rating, when it is written in shorthand. -/
def shorthand? (scope : Variables) (index : Nat) : Option (String × String) :=
  ((Fields.get? scope (ratingName index)).bind Value.string?).bind shorthandParts?

/-- The first part of a text in shorthand is not in shorthand: the text is split where the
separator occurs first, and trimming does not bring it back. -/
theorem shorthandParts?_kind {text kind image : String}
    (h : shorthandParts? text = some (kind, image)) : shorthandParts? kind = none := by
  obtain ⟨⟨front, tail⟩, hsplit, heq⟩ := Option.map_eq_some_iff.mp h
  cases heq
  have hseparator : [' ', '/', ' '] ≠ [] := by simp
  rw [shorthandParts?, String.toList_ofList, Option.map_eq_none_iff,
    Text.splitOnce?_eq_none_iff hseparator]
  exact fun hwithin =>
    Text.not_infix_of_splitOnce? hseparator hsplit (hwithin.trans (Text.trimChars_infix front))

/-- No image has the name of a rating. -/
theorem ratingImageName_ne_ratingName (index other : Nat) :
    ratingImageName index ≠ ratingName other := by
  intro h
  have hchars := congrArg String.toList h
  simp only [ratingImageName, ratingName, Text.decimal, String.toList_append,
    String.toList_ofList, List.append_assoc, List.append_right_inj] at hchars
  have hdigit : ∀ c ∈ Text.decimalDigits other, c ≠ '_' :=
    Text.forall_mem_decimalDigits (by decide) other
  exact hdigit '_' (by simp [← hchars]) rfl

/-- A rating that is not in shorthand is left alone. -/
theorem expandRating_of_shorthand?_eq_none {scope : Variables} {index : Nat}
    (h : scope.shorthand? index = none) : scope.expandRating index = scope := by
  rw [shorthand?] at h
  rw [expandRating, h]

/-- A rating in shorthand is split into two names, and then it is not in shorthand any more. -/
theorem expandRating_cases (scope : Variables) (index : Nat) :
    scope.shorthand? index = none ∨
      ∃ kind image, shorthandParts? kind = none ∧
        scope.expandRating index = Fields.insert (ratingName index) (.string kind)
          (Fields.insert (ratingImageName index) (.string image) scope) := by
  cases hparts : scope.shorthand? index with
  | none => exact .inl rfl
  | some parts =>
    obtain ⟨text, _, hsplit⟩ := Option.bind_eq_some_iff.mp hparts
    rw [shorthand?] at hparts
    exact .inr ⟨parts.1, parts.2, shorthandParts?_kind hsplit, by rw [expandRating, hparts]⟩

/-- A rating that is split is not in shorthand, and one that is not in shorthand stays so when
another one is split. -/
theorem shorthand?_expandRating {scope : Variables} {index other : Nat}
    (h : index = other ∨ scope.shorthand? index = none) :
    (scope.expandRating other).shorthand? index = none := by
  rcases scope.expandRating_cases other with hnone | ⟨kind, image, hkind, hwritten⟩
  · rw [expandRating_of_shorthand?_eq_none hnone]
    rcases h with rfl | h
    · exact hnone
    · exact h
  · rw [shorthand?, hwritten, Fields.get?_insert, Fields.get?_insert,
      if_neg (ratingImageName_ne_ratingName other index)]
    split
    · exact hkind
    · rename_i hne
      exact h.resolve_left fun heq => hne (heq ▸ rfl)

/-- None of the first ratings is in shorthand. -/
def IsExpanded (scope : Variables) (count : Nat) : Prop :=
  ∀ index, 1 ≤ index → index ≤ count → scope.shorthand? index = none

/-- One rating more is split after the others. -/
theorem expandShorthand_succ (scope : Variables) (count : Nat) :
    scope.expandShorthand (count + 1) = (scope.expandShorthand count).expandRating (count + 1) := by
  rw [expandShorthand, List.range_succ, List.foldl_append]
  rfl

/-- After the expansion none of the ratings is in shorthand: a rating that is split stays so. -/
theorem isExpanded_expandShorthand (scope : Variables) (count : Nat) :
    (scope.expandShorthand count).IsExpanded count := by
  induction count with
  | zero =>
    intro index hpos hle
    omega
  | succ count ih =>
    intro index hpos hle
    rw [expandShorthand_succ]
    refine shorthand?_expandRating ?_
    rcases Nat.lt_or_eq_of_le hle with hlt | heq
    · exact .inr (ih index hpos (Nat.le_of_lt_succ hlt))
    · exact .inl heq

/-- The names of the first ratings and of their images. -/
def IsRatingUpTo (count : Nat) (name : String) : Prop :=
  ∃ index, 1 ≤ index ∧ index ≤ count ∧ (name = ratingName index ∨ name = ratingImageName index)

/-- Splitting a rating writes under its name and that of its image. -/
theorem writtenUnder_expandRating (scope : Variables) {index count : Nat} (hpos : 1 ≤ index)
    (hle : index ≤ count) :
    Fields.WrittenUnder (IsRatingUpTo count) scope (scope.expandRating index) := by
  have hrating : IsRatingUpTo count (ratingName index) := ⟨index, hpos, hle, .inl rfl⟩
  have himage : IsRatingUpTo count (ratingImageName index) := ⟨index, hpos, hle, .inr rfl⟩
  rcases scope.expandRating_cases index with hnone | ⟨kind, image, _, hwritten⟩
  · rw [expandRating_of_shorthand?_eq_none hnone]
    exact .refl _ scope
  · rw [hwritten]
    exact (Fields.WrittenUnder.insert himage _ scope).trans (.insert hrating _ _)

/-- Expanding writes under the names of the ratings that it covers and of their images. -/
theorem writtenUnder_expandShorthand (scope : Variables) (count : Nat) :
    Fields.WrittenUnder (IsRatingUpTo count) scope (scope.expandShorthand count) := by
  induction count with
  | zero => exact .refl _ scope
  | succ count ih =>
    rw [expandShorthand_succ]
    have hmore (name : String) : IsRatingUpTo count name → IsRatingUpTo (count + 1) name := by
      rintro ⟨index, hpos, hle, hname⟩
      exact ⟨index, hpos, Nat.le_succ_of_le hle, hname⟩
    exact (ih.mono hmore).trans
      (writtenUnder_expandRating _ (Nat.succ_pos count) (Nat.le_refl _))

/-- Expansions of shorthand compose: after one expansion another one only adds the ratings that were
left out, and it leaves the same entries in the same order as the one that reaches further. All
that is ever written are the ratings that are covered and their images. No entry is removed, and
the old entries keep their places. -/
theorem expandShorthand_expandShorthand (scope : Variables) (first second : Nat) :
    (scope.expandShorthand first).expandShorthand second =
        scope.expandShorthand (max first second) ∧
      Fields.WrittenUnder (IsRatingUpTo first) scope (scope.expandShorthand first) := by
  refine ⟨?_, writtenUnder_expandShorthand scope first⟩
  -- Each rating of the second expansion is split already or the next one of the first expansion.
  induction second with
  | zero =>
    rw [Nat.max_zero]
    rfl
  | succ second ih =>
    rw [expandShorthand_succ, ih]
    rcases Nat.lt_or_ge second first with hlt | hge
    · rw [Nat.max_eq_left hlt, Nat.max_eq_left (Nat.le_of_lt hlt)]
      exact expandRating_of_shorthand?_eq_none
        (isExpanded_expandShorthand scope first (second + 1) (Nat.succ_pos second) hlt)
    · rw [Nat.max_eq_right hge, Nat.max_eq_right (Nat.le_succ_of_le hge), expandShorthand_succ]

end Variables

end PosterOverlay
