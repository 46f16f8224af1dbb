import Mathlib.Data.List.Forall2
import Mathlib.Data.List.Infix
import PosterOverlay.Overlay.Preview
import PosterOverlay.Proofs.Fields
import PosterOverlay.Proofs.Number.Order
import PosterOverlay.Proofs.Placeholder.Lookup

/-!
# What a preview shows

A preview considers the overlays one after another. At every moment it holds the overlays without
a group that it has met, the groups it has met, and for each of these the winner among the members
met so far. Two statements follow: what the finished preview consists of, and that a preview may
stand for the overlays it was made from when further ones are considered.
-/

namespace PosterOverlay

namespace Overlay

/-- The text of a field. There is none where the field is missing or null. -/
def textOf (overlay : Overlay) (field : String) : String :=
  ((overlay.get? field).getD .null).text

/-- The text of the group. -/
def groupText (overlay : Overlay) : String :=
  overlay.textOf "group"

/-- An overlay belongs to the group that its text names, if there is a text. -/
theorem group?_eq (overlay : Overlay) :
    overlay.group? = if overlay.groupText = "" then none else some overlay.groupText := by
  unfold group? groupText textOf
  cases hgroup : overlay.get? "group" with
  | none => simp [Value.text]
  | some value =>
    cases hnull : value.isNull with
    | true =>
      have hvalue : value = .null := by
        cases value with
        | null => rfl
        | _ => cases hnull
      simp [hvalue, Value.isNull, Value.text]
    | false =>
      by_cases htext : value.text = "" <;> simp [hnull, htext]

/-- The label: the name of the entry, without this the display name, and without both the name. -/
def label (overlay : Overlay) : String :=
  if overlay.textOf "_original_name" ≠ "" then overlay.textOf "_original_name"
  else if overlay.textOf "display_name" ≠ "" then overlay.textOf "display_name"
  else overlay.textOf "name"

/-- What the overlay displays is its label. A missing field does not count more than one without a
text. -/
theorem displayName_eq (overlay : Overlay) : overlay.displayName = overlay.label := by
  have hfield (field : String) (fields : List String) :
      (((field :: fields).filterMap overlay.get?).map Value.text).find? (· != "") =
        if overlay.textOf field ≠ "" then some (overlay.textOf field)
        else ((fields.filterMap overlay.get?).map Value.text).find? (· != "") := by
    unfold textOf
    cases hvalue : overlay.get? field with
    | none => simp [hvalue, Value.text]
    | some value => by_cases htext : value.text = "" <;> simp [hvalue, htext]
  unfold displayName label originField
  rw [hfield, hfield, hfield]
  by_cases horigin : overlay.textOf "_original_name" = ""
  · by_cases hdisplay : overlay.textOf "display_name" = ""
    · by_cases hname : overlay.textOf "name" = "" <;> simp [horigin, hdisplay, hname]
    · simp [horigin, hdisplay]
  · simp [horigin]

/-- The number in the field `weight`, which may be written as a text with blanks around it. It is
zero where there is none. -/
def fieldWeight (overlay : Overlay) : Float :=
  match overlay.get? "weight" with
  | some (.int i) => Binary64.ofInt i
  | some (.float x) => x
  | some (.string text) => (FloatReading.read? (Text.trimChars text.toList)).getD 0
  | _ => 0

theorem weight_eq (overlay : Overlay) : overlay.weight = overlay.fieldWeight := by
  unfold weight fieldWeight
  cases overlay.get? "weight" with
  | none => rfl
  | some value => cases value <;> rfl

/-- An overlay is fresh when its label contains the word. -/
theorem isFresh_iff (overlay : Overlay) :
    overlay.isFresh = true ↔ "Fresh".toList <:+: overlay.label.toList := by
  rw [isFresh, Text.contains, Text.occursIn_iff_infix, displayName_eq]

end Overlay

/-- A group shows ratings when its text opens with `rating` and closes with `_group`. -/
theorem isRatingGroup_iff (group : String) :
    isRatingGroup group = true ↔
      "rating".toList <+: group.toList ∧ "_group".toList <:+ group.toList := by
  rw [isRatingGroup, Bool.and_eq_true, Text.opensWith, List.isPrefixOf_iff_prefix,
    Text.closesWith, Text.before?, Option.isSome_map, List.isSome_isPrefixOf?_eq_isPrefixOf,
    List.isPrefixOf_iff_prefix, List.reverse_prefix]

namespace Preview

/-- The overlays of a group, in order. -/
def membersOf (overlays : List Overlay) (group : String) : List Overlay :=
  overlays.filter fun overlay => overlay.groupText = group

/-- The groups of overlays, in the order in which they first appear. -/
def groupsOf (overlays : List Overlay) : List String :=
  ((overlays.map Overlay.groupText).filter (· ≠ "")).eraseDups

theorem mem_groupsOf_iff {overlays : List Overlay} {group : String} :
    group ∈ groupsOf overlays ↔
      (∃ overlay ∈ overlays, overlay.groupText = group) ∧ group ≠ "" := by
  simp [groupsOf, List.mem_eraseDups]

/-- One more overlay adds its group at the end, if the group is new. -/
theorem groupsOf_append_singleton (met : List Overlay) {overlay : Overlay}
    (hgroup : overlay.groupText ≠ "") :
    groupsOf (met ++ [overlay]) =
      if overlay.groupText ∈ groupsOf met then groupsOf met
      else groupsOf met ++ [overlay.groupText] := by
  unfold groupsOf
  rw [List.map_append, List.filter_append, List.eraseDups_append]
  generalize (met.map Overlay.groupText).filter (· ≠ "") = texts
  by_cases hmem : overlay.groupText ∈ texts <;>
    simp [hgroup, hmem, List.removeAll, List.mem_eraseDups, List.eraseDups_cons]

/-- The member of a group that is shown once one more member has been considered. -/
def challenged (group : String) (shown : Option Overlay) (later : Overlay) : Overlay :=
  match shown with
  | none => later
  | some held => if later.replaces group held then later else held

/-- The member that is shown once all members of a group have been considered in order. -/
def winner? (group : String) (members : List Overlay) : Option Overlay :=
  members.foldl (fun shown later => some (challenged group shown later)) none

theorem winner?_append_singleton (group : String) (members : List Overlay) (later : Overlay) :
    winner? group (members ++ [later]) = some (challenged group (winner? group members) later) := by
  rw [winner?, List.foldl_append]
  rfl

/-! ## The preview after every overlay -/

/-- The preview holds what the overlays met so far lead to. -/
structure Holds (preview : Preview) (met : List Overlay) : Prop where
  /-- The overlays without a group are all held, in order. -/
  ungrouped : preview.ungrouped = met.filter fun overlay => overlay.groupText = ""
  /-- The groups met are held in the order in which they first appeared. -/
  groups : preview.shown.names = groupsOf met
  /-- No group is held twice. -/
  distinct : preview.shown.Distinct
  /-- Each group is held with the winner among its members. -/
  winners : ∀ group, group ≠ "" →
    preview.shown.get? group = winner? group (membersOf met group)

variable {preview : Preview} {met : List Overlay} {overlay : Overlay}

theorem add_of_no_group (preview : Preview) (h : overlay.groupText = "") :
    preview.add overlay = { preview with ungrouped := preview.ungrouped ++ [overlay] } := by
  rw [add, Overlay.group?_eq, if_pos h]

/-- The first overlay of a group is shown for it. -/
theorem add_of_new_group (h : overlay.groupText ≠ "")
    (hnew : preview.shown.get? overlay.groupText = none) :
    preview.add overlay =
      { preview with shown := preview.shown ++ [(overlay.groupText, overlay)] } := by
  have hgroup : overlay.group? = some overlay.groupText := by rw [Overlay.group?_eq, if_neg h]
  simp only [add, hgroup, hnew, Fields.insert_of_get?_eq_none hnew]

/-- An overlay with a group changes the preview of this group alone. -/
theorem shown_add (preview : Preview) (h : overlay.groupText ≠ "") :
    let shown := (preview.add overlay).shown
    (preview.add overlay).ungrouped = preview.ungrouped ∧
    shown.names = (if overlay.groupText ∈ preview.shown.names then preview.shown.names
      else preview.shown.names ++ [overlay.groupText]) ∧
    ∀ group, shown.get? group =
      if overlay.groupText = group
      then some (challenged group (preview.shown.get? group) overlay)
      else preview.shown.get? group := by
  have hgroup : overlay.group? = some overlay.groupText := by rw [Overlay.group?_eq, if_neg h]
  cases hheld : preview.shown.get? overlay.groupText with
  | none =>
    simp only [add, hgroup, hheld]
    refine ⟨trivial, Fields.names_insert _ _ _, fun group => ?_⟩
    rw [Fields.get?_insert]
    by_cases heq : overlay.groupText = group
    · rw [if_pos heq, if_pos heq, ← heq, hheld, challenged]
    · rw [if_neg heq, if_neg heq]
  | some held =>
    have hmem : overlay.groupText ∈ preview.shown.names := by
      rw [← Fields.contains_iff_mem_names, Fields.contains, hheld, Option.isSome_some]
    simp only [add, hgroup, hheld]
    cases hreplaces : overlay.replaces overlay.groupText held with
    | true =>
      refine ⟨rfl, Fields.names_insert _ _ _, fun group => ?_⟩
      rw [if_pos rfl, Fields.get?_insert]
      by_cases heq : overlay.groupText = group
      · rw [if_pos heq, if_pos heq, ← heq, hheld, challenged, if_pos hreplaces]
      · rw [if_neg heq, if_neg heq]
    | false =>
      refine ⟨rfl, (if_pos hmem).symm, fun group => ?_⟩
      by_cases heq : overlay.groupText = group
      · subst heq
        simp [hheld, challenged, hreplaces]
      · rw [if_neg heq]
        rfl

theorem holds_empty : empty.Holds [] where
  ungrouped := rfl
  groups := rfl
  distinct := Fields.distinct_nil
  winners _ _ := rfl

/-- Considering one more overlay, a preview holds what all of them lead to. -/
theorem Holds.add (h : preview.Holds met) (overlay : Overlay) :
    (preview.add overlay).Holds (met ++ [overlay]) := by
  by_cases hgroup : overlay.groupText = ""
  · rw [add_of_no_group preview hgroup]
    constructor
    · simp [h.ungrouped, hgroup]
    · simp [h.groups, groupsOf, hgroup]
    · exact h.distinct
    · intro group hne
      have hother : overlay.groupText ≠ group := by
        rintro rfl
        exact hne hgroup
      simp [h.winners group hne, membersOf, hother]
  · obtain ⟨hungrouped, hnames, hget⟩ := shown_add preview hgroup
    constructor
    · simp [hungrouped, h.ungrouped, hgroup]
    · rw [hnames, groupsOf_append_singleton met hgroup, h.groups]
    · have hinsert := h.distinct.insert overlay.groupText overlay
      unfold Fields.Distinct at hinsert ⊢
      rwa [Fields.names_insert, ← hnames] at hinsert
    · intro group hne
      rw [hget, h.winners group hne]
      unfold membersOf
      rw [List.filter_append]
      by_cases heq : overlay.groupText = group
      · rw [if_pos heq, List.filter_singleton, decide_eq_true heq, cond_true,
          winner?_append_singleton]
      · simp [heq]

/-- After all overlays, a preview holds what they lead to. -/
theorem holds_foldl (overlays : List Overlay) :
    (overlays.foldl Preview.add empty).Holds overlays := by
  induction overlays using List.reverseRecOn with
  | nil => exact holds_empty
  | append_singleton met overlay ih =>
    rw [List.foldl_append]
    exact ih.add overlay

/-! ## The winner of a group -/

/-- A group without a winner has no members. -/
theorem eq_nil_of_winner? {group : String} {members : List Overlay}
    (h : winner? group members = none) : members = [] := by
  cases members using List.reverseRecOn with
  | nil => rfl
  | append_singleton members later =>
    rw [winner?_append_singleton] at h
    cases h

/-- The winner of a group is one of its members. -/
theorem winner?_mem {group : String} {members : List Overlay} {shown : Overlay}
    (h : winner? group members = some shown) : shown ∈ members := by
  induction members using List.reverseRecOn generalizing shown with
  | nil => cases h
  | append_singleton members later ih =>
    rw [winner?_append_singleton, Option.some.injEq] at h
    subst h
    cases hheld : winner? group members with
    | none => simp [challenged]
    | some held =>
      have hmem := ih hheld
      rw [challenged]
      split <;> simp [hmem]

/-- Of a rating group the earliest fresh member wins, and the earliest member if none is fresh. -/
theorem winner?_of_isRatingGroup {group : String} (hrating : isRatingGroup group = true)
    (members : List Overlay) :
    winner? group members = (members.find? Overlay.isFresh).or members.head? := by
  induction members using List.reverseRecOn with
  | nil => rfl
  | append_singleton members later ih =>
    rw [winner?_append_singleton, ih, List.find?_append, List.head?_append]
    cases hfind : members.find? Overlay.isFresh with
    | some held =>
      have hfresh : held.isFresh = true := List.find?_some hfind
      simp [challenged, Overlay.replaces, hrating, hfresh]
    | none =>
      cases hhead : members.head? with
      | none => cases hlater : later.isFresh <;> simp [challenged, hlater]
      | some held =>
        have hstale : held.isFresh = false := by
          have := List.find?_eq_none.mp hfind held (List.mem_of_head? hhead)
          simpa using this
        cases hlater : later.isFresh <;>
          simp [challenged, Overlay.replaces, hrating, hstale, hlater]

/-- The overlay comes first among the heaviest: all before it are lighter, and none after it is
heavier. -/
def IsFirstHeaviest (members : List Overlay) (shown : Overlay) : Prop :=
  ∃ before after, members = before ++ shown :: after ∧
    (∀ earlier ∈ before, earlier.weight < shown.weight) ∧
    ∀ later ∈ after, ¬shown.weight < later.weight

/-- The weights of the overlays are numbers, and not only what a failed reading left. -/
def AreWeighed (members : List Overlay) : Prop :=
  ∀ overlay ∈ members, overlay.weight.isNaN = false

theorem AreWeighed.lt_iff {members : List Overlay} (h : AreWeighed members)
    {overlay other : Overlay} (hoverlay : overlay ∈ members) (hother : other ∈ members) :
    overlay.weight < other.weight ↔
      Binary64.rank overlay.weight < Binary64.rank other.weight :=
  Binary64.lt_iff_rank_lt (h overlay hoverlay) (h other hother)

/-- A heavier overlay at the end comes first among the heaviest, and any other one changes
nothing. -/
theorem IsFirstHeaviest.challenged {group : String} (hrating : isRatingGroup group = false)
    {members : List Overlay} {held later : Overlay} (h : IsFirstHeaviest members held)
    (hweighed : AreWeighed (members ++ [later])) :
    IsFirstHeaviest (members ++ [later]) (challenged group (some held) later) := by
  obtain ⟨before, after, rfl, hbefore, hafter⟩ := h
  have hlater : later ∈ before ++ held :: after ++ [later] := by simp
  have hheld : held ∈ before ++ held :: after ++ [later] := by simp
  by_cases hlt : held.weight < later.weight
  · refine ⟨before ++ held :: after, [], ?_, ?_, by simp⟩
    · simp [Preview.challenged, Overlay.replaces, hrating, hlt]
    · have hchallenged : Preview.challenged group (some held) later = later := by
        simp [Preview.challenged, Overlay.replaces, hrating, hlt]
      have hrank := (hweighed.lt_iff hheld hlater).mp hlt
      intro other hother
      have hmem : other ∈ before ++ held :: after ++ [later] := List.mem_append_left _ hother
      rw [hchallenged, hweighed.lt_iff hmem hlater]
      rw [List.mem_append, List.mem_cons] at hother
      rcases hother with hother | rfl | hother
      · exact ((hweighed.lt_iff hmem hheld).mp (hbefore other hother)).trans hrank
      · exact hrank
      · have hle := mt (hweighed.lt_iff hheld hmem).mpr (hafter other hother)
        exact (not_lt.mp hle).trans_lt hrank
  · refine ⟨before, after ++ [later], ?_, ?_, ?_⟩
    all_goals simp only [Preview.challenged, Overlay.replaces, hrating, hlt, decide_false,
      Bool.false_eq_true, if_false]
    · simp
    · exact hbefore
    · rw [List.forall_mem_append, List.forall_mem_singleton]
      exact ⟨hafter, hlt⟩

/-- Of any other group whose weights are numbers, the first of the heaviest members wins. -/
theorem isFirstHeaviest_of_winner? {group : String} (hrating : isRatingGroup group = false)
    {members : List Overlay} (hweighed : AreWeighed members) {shown : Overlay}
    (h : winner? group members = some shown) : IsFirstHeaviest members shown := by
  induction members using List.reverseRecOn generalizing shown with
  | nil => cases h
  | append_singleton members later ih =>
    rw [winner?_append_singleton, Option.some.injEq] at h
    subst h
    cases hheld : winner? group members with
    | none =>
      rw [eq_nil_of_winner? hheld]
      exact ⟨[], [], rfl, by simp, by simp⟩
    | some held =>
      have hfirst := ih (fun other hother => hweighed other (List.mem_append_left _ hother)) hheld
      exact hfirst.challenged hrating hweighed

/-- The first of the heaviest members is the earliest one whose weight none exceeds. -/
theorem IsFirstHeaviest.find? {members : List Overlay} {shown : Overlay}
    (h : IsFirstHeaviest members shown) (hweighed : AreWeighed members) :
    (members.find? fun overlay => ∀ other ∈ members, ¬overlay.weight < other.weight) =
      some shown := by
  obtain ⟨before, after, hsplit, hbefore, hafter⟩ := h
  have hshown : shown ∈ members := by simp [hsplit]
  refine List.find?_eq_some_iff_append.mpr ⟨?_, before, after, hsplit, ?_⟩
  · rw [decide_eq_true_iff]
    intro other hother
    have hcases := hother
    rw [hsplit, List.mem_append, List.mem_cons] at hcases
    rcases hcases with hearlier | rfl | hlater
    · have hrank := (hweighed.lt_iff hother hshown).mp (hbefore other hearlier)
      exact fun hexceeds => hrank.asymm ((hweighed.lt_iff hshown hother).mp hexceeds)
    · exact fun hexceeds => (lt_irrefl _) ((hweighed.lt_iff hshown hshown).mp hexceeds)
    · exact hafter other hlater
  · intro earlier hearlier
    rw [Bool.not_eq_true', decide_eq_false_iff_not]
    exact fun hheaviest => hheaviest shown hshown (hbefore earlier hearlier)

/-! ## The finished preview -/

/-- The overlay stands for a group of overlays: of a rating group it is the earliest fresh member,
or the earliest member when none is fresh; of any other group it is the earliest member whose
weight no member exceeds, provided that all weights are numbers. -/
structure Represents (overlays : List Overlay) (group : String) (shown : Overlay) : Prop where
  /-- It is a member of the group. -/
  mem : shown ∈ membersOf overlays group
  /-- What decides in a rating group. -/
  fresh : "rating".toList <+: group.toList ∧ "_group".toList <:+ group.toList →
    ((membersOf overlays group).find? fun overlay =>
      "Fresh".toList <:+: overlay.label.toList).or (membersOf overlays group).head? =
        some shown
  /-- What decides in any other group. -/
  heaviest : ¬("rating".toList <+: group.toList ∧ "_group".toList <:+ group.toList) →
    (∀ overlay ∈ membersOf overlays group, overlay.fieldWeight.isNaN = false) →
    ((membersOf overlays group).find? fun overlay =>
      ∀ other ∈ membersOf overlays group, ¬overlay.fieldWeight < other.fieldWeight) = some shown

/-- The winner of a group stands for it. -/
theorem represents_of_winner? {overlays : List Overlay} {group : String} {shown : Overlay}
    (h : winner? group (membersOf overlays group) = some shown) :
    Represents overlays group shown where
  mem := winner?_mem h
  fresh hrating := by
    rw [winner?_of_isRatingGroup ((isRatingGroup_iff group).mpr hrating)] at h
    simpa only [← Overlay.isFresh_iff, Bool.decide_eq_true] using h
  heaviest hrating hweighed := by
    rw [← isRatingGroup_iff, Bool.not_eq_true] at hrating
    simp only [← Overlay.weight_eq] at hweighed ⊢
    exact (isFirstHeaviest_of_winner? hrating hweighed h).find? hweighed

/-- What is held for a group is its winner. -/
theorem Holds.winner?_of_mem (h : preview.Holds met) {entry : String × Overlay}
    (hentry : entry ∈ preview.shown) :
    entry.1 ≠ "" ∧ winner? entry.1 (membersOf met entry.1) = some entry.2 := by
  have hgroup : entry.1 ∈ groupsOf met := h.groups ▸ List.mem_map_of_mem hentry
  have hne := (mem_groupsOf_iff.mp hgroup).2
  exact ⟨hne, (h.winners entry.1 hne).symm.trans (h.distinct.get?_eq_some_iff.mpr hentry)⟩

/-- A preview shows all overlays without a group in their order, and then one overlay for each
group, in the order in which the groups first appear. -/
theorem select_representatives (overlays : List Overlay) :
    ∃ shown, select overlays =
      (overlays.filter fun overlay => overlay.groupText = "") ++ shown ∧
        List.Forall₂ (Represents overlays) (groupsOf overlays) shown := by
  have hholds := holds_foldl overlays
  refine ⟨(overlays.foldl Preview.add empty).shown.map Prod.snd, ?_, ?_⟩
  · rw [select, toList, hholds.ungrouped]
  · rw [← hholds.groups, Fields.names, List.forall₂_map_left_iff, List.forall₂_map_right_iff,
      List.forall₂_same]
    exact fun entry hentry => represents_of_winner? (hholds.winner?_of_mem hentry).2

-- Of two overlays of the highest weight the first is shown, and a fresh one is never replaced.
example :
    let overlay (name group : String) (weight : Int) : Overlay :=
      .ofTemplates name [("group", .string group), ("weight", .int weight)] ["standard"]
    (select [overlay "720p" "resolution" 10, overlay "plain" "" 0,
      overlay "Rotten" "rating1_group" 90, overlay "4K" "resolution" 50,
      overlay "Fresh" "rating1_group" 1, overlay "1080p" "resolution" 50,
      overlay "Certified Fresh" "rating1_group" 100]).map Overlay.displayName =
        ["plain", "4K", "Fresh"] := by
  decide +kernel

/-! ## Considering a preview again -/

/-- Overlays without a group all join those already held. -/
theorem foldl_add_of_no_group {later : List Overlay}
    (h : ∀ overlay ∈ later, overlay.groupText = "") (preview : Preview) :
    later.foldl Preview.add preview =
      { preview with ungrouped := preview.ungrouped ++ later } := by
  induction later generalizing preview with
  | nil => simp
  | cons overlay later ih =>
    obtain ⟨hfirst, hrest⟩ := List.forall_mem_cons.mp h
    rw [List.foldl_cons, add_of_no_group preview hfirst, ih hrest]
    simp

/-- Overlays of new groups, each of another one, are all shown. -/
theorem foldl_add_of_new_groups {entries : Fields Overlay}
    (h : ∀ entry ∈ entries, entry.1 ≠ "" ∧ entry.2.groupText = entry.1) (preview : Preview)
    (hdistinct : Fields.Distinct (preview.shown ++ entries)) :
    (entries.map Prod.snd).foldl Preview.add preview =
      { preview with shown := preview.shown ++ entries } := by
  induction entries generalizing preview with
  | nil => simp
  | cons entry entries ih =>
    obtain ⟨group, overlay⟩ := entry
    obtain ⟨⟨hne, hgroup⟩, hrest⟩ := List.forall_mem_cons.mp h
    have hnew : preview.shown.get? overlay.groupText = none := by
      rw [Fields.get?_eq_none_iff]
      intro hmem
      rw [Fields.Distinct, Fields.names, List.map_append, List.nodup_append] at hdistinct
      exact hdistinct.2.2 _ hmem _ List.mem_cons_self hgroup
    rw [List.map_cons, List.foldl_cons, add_of_new_group (hgroup ▸ hne) hnew, hgroup, ih hrest]
    · simp
    · simpa using hdistinct

/-- Considering the overlays that a preview shows leads to the same preview. -/
theorem Holds.foldl_toList (h : preview.Holds met) :
    preview.toList.foldl Preview.add empty = preview := by
  have hungrouped : ∀ overlay ∈ preview.ungrouped, overlay.groupText = "" := by
    intro overlay hoverlay
    rw [h.ungrouped, List.mem_filter, decide_eq_true_iff] at hoverlay
    exact hoverlay.2
  have hshown : ∀ entry ∈ preview.shown, entry.1 ≠ "" ∧ entry.2.groupText = entry.1 := by
    intro entry hentry
    obtain ⟨hne, hwinner⟩ := h.winner?_of_mem hentry
    have hmem := winner?_mem hwinner
    rw [membersOf, List.mem_filter, decide_eq_true_iff] at hmem
    exact ⟨hne, hmem.2⟩
  rw [toList, List.foldl_append, foldl_add_of_no_group hungrouped]
  exact foldl_add_of_new_groups hshown ⟨preview.ungrouped, []⟩ h.distinct

/-- A preview may stand for the overlays that it was made from: considering further ones leads to
the same preview, in the same order. In particular the preview of a preview is itself. -/
theorem select_select_append (overlays later : List Overlay) :
    select (overlays ++ later) = select (select overlays ++ later) := by
  have hagain := (holds_foldl overlays).foldl_toList
  unfold select
  rw [List.foldl_append, List.foldl_append, hagain]

end Preview

end PosterOverlay
