import PosterOverlay.Proofs.Overlay.WellFormed
import PosterOverlay.Proofs.Placeholder.Lookup
import PosterOverlay.Proofs.Text.Splitting
import PosterOverlay.Proofs.Value.Distinct

/-!
# What an overlay tells of its origin

An overlay tells the name of its entry, and either the templates that it was made from or that it
was written out directly. Template calls cannot forge any of this, for hidden fields that they
produce are left out. A direct block keeps its hidden fields: the name of the entry and the mark of
a direct overlay are written over whatever the block says, but what it says about templates stays.
The names of templates are kept in one text, from which they come back one by one unless a name is
empty or holds the separator.
-/

namespace PosterOverlay

/-- A field of a distinct value is distinct. -/
theorem Value.Distinct.field? {value : Value} (h : value.Distinct) {name : String} {inner : Value}
    (hinner : value.field? name = some inner) : inner.Distinct := by
  obtain ⟨fields, hfields, hget⟩ := Option.bind_eq_some_iff.mp hinner
  have hunder : value.under name = inner := by
    rw [Value.under, Value.entries, hfields, Option.getD_some, hget, Option.getD_some]
  exact hunder ▸ h.under name

namespace Limits

variable (limits : Limits) (scope : Variables)

/-- Resolving fields keeps their names. -/
theorem names_resolveFields (fields : Fields Value) :
    Fields.names (limits.resolveFields scope fields) = fields.names := by
  induction fields with
  | nil => rfl
  | cons field rest ih => exact congrArg (field.1 :: ·) ih

/-- A lookup among resolved fields finds the resolved value. -/
theorem get?_resolveFields (fields : Fields Value) (name : String) :
    Fields.get? (limits.resolveFields scope fields) name =
      (fields.get? name).map (limits.resolve scope) := by
  induction fields with
  | nil => rfl
  | cons field rest ih =>
    obtain ⟨bound, value⟩ := field
    rw [resolveFields, Fields.get?_cons, Fields.get?_cons, ih]
    split <;> rfl

end Limits

namespace Overlay

/-- The overlay tells that it was made by template calls, and nothing else. -/
structure TellsTemplates (overlay : Overlay) : Prop where
  /-- It names templates. -/
  named : ∃ text, overlay.get? templateField = some (.string text)
  /-- It is not marked as direct. -/
  unmarked : overlay.get? directField = none

/-- The overlay tells that it was written out directly, and nothing else. -/
structure TellsDirect (overlay : Overlay) : Prop where
  /-- It is marked as direct. -/
  marked : overlay.get? directField = some (.bool true)
  /-- It says nothing about templates. -/
  unnamed : overlay.get? templateField = none

/-- A well-formed overlay tells that it was made by template calls: the mark of a direct overlay
would be one more hidden field. -/
theorem WellFormed.tellsTemplates {overlay : Overlay} {name : String}
    (h : overlay.WellFormed name) : overlay.TellsTemplates where
  named := h.templates
  unmarked := by
    cases hmark : overlay.get? directField with
    | none => rfl
    | some value =>
      have hvisible : Text.opensWith directField "_" = false :=
        h.visible _ (Fields.mem_of_get? hmark) (by simp [originField, directField])
          (by simp [templateField, directField])
      exact absurd hvisible (by decide)

/-- An overlay that is not marked was not written out directly. -/
theorem TellsTemplates.not_isDirect {overlay : Overlay} (h : overlay.TellsTemplates) :
    overlay.isDirect = false := by
  rw [isDirect, h.unmarked]
  rfl

/-- Whatever a direct block says, its overlay tells the name of the entry and is marked. The mark
and the name do not touch what the block says about templates. -/
theorem get?_direct (name : String) (fields : Fields Value) :
    (direct name fields).get? originField = some (.string name) ∧
      (direct name fields).get? directField = some (.bool true) ∧
      (direct name fields).get? templateField = fields.get? templateField := by
  simp [direct, get?, Fields.get?_insert, originField, templateField, directField]

end Overlay

namespace Setting

/-- What a direct block says about templates: the value of the field that names them, resolved,
unless this is null. -/
def claimed? (setting : Setting) (direct : Fields Value) : Option Value :=
  ((direct.get? Overlay.templateField).map (setting.limits.resolve setting.scope)).filter
    fun value => !value.isNull

/-- An entry with a `template` field comes to what its calls make of it. -/
theorem expandEntry?_of_calls (setting : Setting) (name : String) {entry calls : Value}
    (h : entry.field? "template" = some calls) :
    setting.expandEntry? name entry = setting.expandCalls name entry.entries calls := by
  obtain ⟨fields, hfields, hcalls⟩ := Option.bind_eq_some_iff.mp h
  rw [Setting.expandEntry?, Value.entries, hfields, Option.bind_some, hcalls, Option.getD_some]

/-- An entry with a direct block and without a `template` field is written out. -/
theorem expandEntry?_of_direct (setting : Setting) (name : String) {entry : Value}
    {direct : Fields Value} (htemplate : entry.field? "template" = none)
    (hdirect : entry.field? "overlay" = some (.mapping direct)) :
    setting.expandEntry? name entry = some (setting.expandDirect name direct) := by
  obtain ⟨fields, hfields, hget⟩ := Option.bind_eq_some_iff.mp hdirect
  rw [Value.field?, hfields, Option.bind_some] at htemplate
  rw [Setting.expandEntry?, hfields, Option.bind_some, htemplate]
  simp only [hget]

/-- An entry without a `template` field is written out directly or comes to nothing. -/
theorem exists_direct_of_expandEntry {setting : Setting} {name : String} {entry : Value}
    {overlay : Overlay} (h : setting.expandEntry? name entry = some overlay)
    (htemplate : entry.field? "template" = none) :
    ∃ direct, entry.field? "overlay" = some (.mapping direct) ∧
      overlay = setting.expandDirect name direct := by
  obtain ⟨fields, hfields, hexpand⟩ := Option.bind_eq_some_iff.mp h
  rw [Value.field?, hfields, Option.bind_some] at htemplate ⊢
  rw [htemplate] at hexpand
  split at hexpand
  · contradiction
  · split at hexpand
    · rename_i direct hdirect
      exact ⟨direct, hdirect, (Option.some.inj hexpand).symm⟩
    · cases hexpand

/-- The overlay of a direct block says about templates what the block says. -/
theorem get?_expandDirect_templateField (setting : Setting) (name : String)
    {direct : Fields Value} (h : direct.Distinct) :
    (setting.expandDirect name direct).get? Overlay.templateField = setting.claimed? direct := by
  have hresolved :
      Fields.Distinct (setting.limits.resolveFields setting.scope direct) := by
    rwa [Fields.Distinct, Limits.names_resolveFields]
  rw [expandDirect, (Overlay.get?_direct _ _).2.2,
    Fields.get?_ofList_of_distinct (hresolved.filter _), hresolved.get?_filter,
    Limits.get?_resolveFields]
  rfl

/-- Every overlay of an entry tells the name of the entry. -/
theorem get?_originField_of_expandEntry {setting : Setting} {name : String} {entry : Value}
    {overlay : Overlay} (h : setting.expandEntry? name entry = some overlay) :
    overlay.get? Overlay.originField = some (.string name) := by
  cases htemplate : entry.field? "template" with
  | none =>
    obtain ⟨direct, _, rfl⟩ := exists_direct_of_expandEntry h htemplate
    exact (Overlay.get?_direct _ _).1
  | some calls =>
    obtain ⟨_, _, hcalls⟩ := exists_calls_of_expandEntry? h (htemplate ▸ rfl)
    exact (wellFormed_of_expandCalls hcalls).origin

/-- So the name of the entry can be read off the overlay. -/
theorem originalName?_of_expandEntry {setting : Setting} {name : String} {entry : Value}
    {overlay : Overlay} (h : setting.expandEntry? name entry = some overlay) :
    overlay.originalName? = some name := by
  rw [Overlay.originalName?, get?_originField_of_expandEntry h]
  rfl

end Setting

namespace Document

/-- Every overlay tells the name of its entry. It tells that it was made by template calls exactly
when the entry has calls, and is marked as direct exactly when it has none. What a direct block
says about templates stays in its overlay, which therefore tells nothing but that it is direct
exactly when the block says nothing about templates. -/
theorem expand_origin (document : Document) (limits : Limits) (library : Fields Value)
    (user : Variables) (hdistinct : ∀ entry ∈ document.overlays, entry.2.Distinct) :
    let setting := Setting.ofDocument limits document library user
    (∀ overlay, overlay ∈ document.expand limits library user ↔
      ∃ entry ∈ document.overlays, setting.expandEntry? entry.1 entry.2 = some overlay) ∧
    ∀ entry ∈ document.overlays, ∀ overlay,
      setting.expandEntry? entry.1 entry.2 = some overlay →
      overlay.get? Overlay.originField = some (.string entry.1) ∧
      (overlay.TellsTemplates ↔ (entry.2.field? "template").isSome) ∧
      (overlay.isDirect = true ↔ entry.2.field? "template" = none) ∧
      (entry.2.field? "template" = none →
        ∃ direct, entry.2.field? "overlay" = some (.mapping direct) ∧
          overlay.get? Overlay.directField = some (.bool true) ∧
          overlay.get? Overlay.templateField = setting.claimed? direct ∧
          (overlay.TellsDirect ↔ setting.claimed? direct = none) ∧
          overlay.templateNames = ((setting.claimed? direct).bind Value.string?).elim []
            fun text => (Text.pieces Overlay.templateSeparator text).filter (· != "")) := by
  intro setting
  refine ⟨fun overlay => List.mem_filterMap, fun entry hentry overlay hoverlay => ?_⟩
  refine ⟨Setting.get?_originField_of_expandEntry hoverlay, ?_⟩
  cases htemplate : entry.2.field? "template" with
  | some calls =>
    obtain ⟨_, _, hcalls⟩ := Setting.exists_calls_of_expandEntry? hoverlay (htemplate ▸ rfl)
    have htells := (Setting.wellFormed_of_expandCalls hcalls).tellsTemplates
    simp [htells, htells.not_isDirect]
  | none =>
    obtain ⟨direct, hdirect, rfl⟩ := Setting.exists_direct_of_expandEntry hoverlay htemplate
    have hmark : (setting.expandDirect entry.1 direct).get? Overlay.directField =
        some (.bool true) := (Overlay.get?_direct _ _).2.1
    have hclaimed : (setting.expandDirect entry.1 direct).get? Overlay.templateField =
        setting.claimed? direct := by
      have hblock := (hdistinct entry hentry).field? hdirect
      exact setting.get?_expandDirect_templateField _ (Value.distinct_mapping_iff.mp hblock).1
    have hisDirect : (setting.expandDirect entry.1 direct).isDirect = true := by
      rw [Overlay.isDirect, hmark]
      rfl
    refine ⟨⟨fun htells => ?_, nofun⟩, ⟨fun _ => rfl, fun _ => hisDirect⟩, fun _ => ?_⟩
    · rw [htells.not_isDirect] at hisDirect
      cases hisDirect
    · refine ⟨direct, hdirect, hmark, hclaimed, ⟨?_, ?_⟩, ?_⟩
      · exact fun htells => hclaimed ▸ htells.unnamed
      · exact fun hnone => ⟨hmark, hclaimed.trans hnone⟩
      · rw [Overlay.templateNames, hclaimed]
        cases (setting.claimed? direct).bind Value.string? <;> rfl

/-- A direct block that calls itself a spoof, unmarks itself and names no templates, beside a badge
whose template marks itself as direct. -/
theorem expand_origin_spoofed :
    let logo : Value := .mapping [("overlay", .mapping [("name", .string "acme"),
      ("_original_name", .string "spoofed"), ("_direct", .bool false), ("_template", .null)])]
    let badge : Value := .mapping [("overlay", .mapping [("name", .string "<<key>>"),
      ("_direct", .bool true)])]
    let entry : Value := .mapping [("template", .string "badge")]
    let document : Document := ⟨none, [("badge", badge)], [("logo", logo), ("movie-hd", entry)]⟩
    let setting := Setting.ofDocument .standard document [] []
    ∃ brand made, setting.expandEntry? "logo" logo = some brand ∧
      setting.expandEntry? "movie-hd" entry = some made ∧
      brand.get? Overlay.originField = some (.string "logo") ∧
      brand.TellsDirect ∧ brand.isDirect = true ∧ brand.templateNames = [] ∧
      made.get? Overlay.originField = some (.string "movie-hd") ∧
      made.TellsTemplates ∧ made.isDirect = false := by
  intro logo badge entry document setting
  have hdistinct : ∀ entry ∈ document.overlays, entry.2.Distinct := by
    simp [document, logo, entry, Value.Distinct, Value.FieldsDistinct, Fields.Distinct,
      Fields.names]
  have hbrand : (setting.expandEntry? "logo" logo).isSome = true := by decide +kernel
  have hmade : (setting.expandEntry? "movie-hd" entry).isSome = true := by decide +kernel
  obtain ⟨brand, hbrand⟩ := Option.isSome_iff_exists.mp hbrand
  obtain ⟨made, hmade⟩ := Option.isSome_iff_exists.mp hmade
  obtain ⟨_, hentries⟩ := expand_origin document .standard [] [] hdistinct
  obtain ⟨hlogo, _, hisDirect, hblock⟩ :=
    hentries ("logo", logo) List.mem_cons_self brand hbrand
  obtain ⟨direct, hdirect, _, _, htells, hnames⟩ := hblock rfl
  obtain ⟨hmovie, htemplates, hnotDirect, _⟩ :=
    hentries ("movie-hd", entry) (List.mem_cons_of_mem _ List.mem_cons_self) made hmade
  -- Null is no claim about templates.
  have hclaimed : setting.claimed? direct = none := by
    cases hdirect
    rfl
  refine ⟨brand, made, hbrand, hmade, hlogo, htells.mpr hclaimed, hisDirect.mpr rfl, ?_, hmovie,
    htemplates.mpr rfl, ?_⟩
  · rw [hnames, hclaimed]
    rfl
  · exact Bool.eq_false_iff.mpr fun h => by cases hnotDirect.mp h

/-- A direct block that names a template: its overlay is marked as direct and names the template at
once. -/
theorem direct_names_template :
    let logo : Value := .mapping [("overlay", .mapping [("name", .string "acme"),
      ("_template", .string "badge")])]
    let document : Document := ⟨none, [], [("logo", logo)]⟩
    ∃ overlay ∈ document.expand .standard [] [],
      overlay.isDirect = true ∧ (overlay.get? Overlay.templateField).isSome ∧
        (overlay.get? Overlay.directField).isSome ∧ overlay.templateNames = ["badge"] := by
  intro logo document
  decide +kernel

end Document

namespace Overlay

/-! ### The names of templates -/

/-- An overlay that template calls made names the pieces of all names that it was given, apart from
the empty ones. -/
theorem templateNames_ofTemplates (name : String) (fields : Fields Value)
    (templates : List String) :
    (ofTemplates name fields templates).templateNames =
      (templates.flatMap (Text.pieces templateSeparator)).filter (· != "") := by
  have hfield : (ofTemplates name fields templates).get? templateField =
      some (.string (Text.joined templateSeparator templates)) := by
    rw [get?, ofTemplates, Fields.get?_insert, if_pos rfl]
  rw [templateNames, hfield]
  cases templates with
  | nil => decide +kernel
  | cons first templates =>
    have hseparator : templateSeparator.toList = ',' :: [' '] := rfl
    have hpieces := Text.pieces_joined hseparator (by decide) (List.cons_ne_nil first templates)
    exact congrArg (List.filter (· != "")) hpieces

/-- No overlay names an empty template, or one that holds the separator. -/
theorem not_contains_of_mem_templateNames {overlay : Overlay} {template : String}
    (h : template ∈ overlay.templateNames) :
    template ≠ "" ∧ Text.contains template templateSeparator = false := by
  unfold templateNames at h
  split at h
  · rename_i text _
    obtain ⟨hpiece, hne⟩ := List.mem_filter.mp h
    obtain ⟨piece, hsplit, rfl⟩ := List.mem_map.mp hpiece
    refine ⟨bne_iff_ne.mp hne, ?_⟩
    rw [Text.contains, Bool.eq_false_iff, ne_eq, Text.occursIn_iff_infix, String.toList_ofList]
    exact Text.not_infix_of_mem_splitAll (by decide) hsplit
  · cases h

/-- A name that does not hold the separator is one piece. -/
theorem pieces_of_not_contains {template : String}
    (h : Text.contains template templateSeparator = false) :
    Text.pieces templateSeparator template = [template] := by
  rw [Text.contains, Bool.eq_false_iff, ne_eq, Text.occursIn_iff_infix] at h
  rw [Text.pieces, Text.splitAll_of_not_infix (by decide) h, List.map_singleton,
    String.ofList_toList]

/-- The names of the templates that an overlay was made with are read back, each in its place,
exactly when none of them is empty or holds the separator. -/
theorem templateNames_ofTemplates_eq_iff (name : String) (fields : Fields Value)
    (templates : List String) :
    (ofTemplates name fields templates).templateNames = templates ↔
      ∀ template ∈ templates,
        template ≠ "" ∧ Text.contains template templateSeparator = false := by
  constructor
  · intro h template hmem
    rw [← h] at hmem
    exact not_contains_of_mem_templateNames hmem
  · intro h
    have hpieces : templates.flatMap (Text.pieces templateSeparator) = templates := by
      rw [List.flatMap_congr fun template hmem => pieces_of_not_contains (h template hmem).2]
      exact List.flatMap_singleton' templates
    rw [templateNames_ofTemplates, hpieces, List.filter_eq_self]
    exact fun template hmem => bne_iff_ne.mpr (h template hmem).1

/-- A comma at the end of a name and a blank at the front of the next do not meet, for the separator
stands between them. -/
example : (ofTemplates "hd" [] ["badge,", " ribbon"]).templateNames = ["badge,", " ribbon"] := by
  decide +kernel

end Overlay

end PosterOverlay
