import PosterOverlay.Document.Expansion
import PosterOverlay.Proofs.Fields
import PosterOverlay.Proofs.Placeholder.Absence

/-!
# Overlays made by templates are well formed

Three filters stand between a template and the overlay: an unresolved text is dropped by the name
that its field has in the template, a hidden field by the name that it gets, and null anywhere.
This file proves that together they keep what the compositor relies on, also when the names of
fields are themselves resolved and meet each other, `name` or the fields that tell the origin.
-/

namespace PosterOverlay

/-- A field as template calls contribute it to an overlay. -/
structure Overlay.IsContribution (field : String × Value) : Prop where
  /-- The field has a value. -/
  notNull : field.2.isNull = false
  /-- The name of the field is not hidden. -/
  visible : Text.opensWith field.1 "_" = false
  /-- Only the display name may keep a placeholder. -/
  resolved : field.1 ≠ "name" → field.2.isUnresolved = false

/-- What the compositor may rely on in the overlay of an entry that calls templates. -/
structure Overlay.WellFormed (overlay : Overlay) (name : String) : Prop where
  /-- No field is given twice. -/
  distinct : overlay.fields.Distinct
  /-- The overlay tells the name of its entry. -/
  origin : overlay.get? originField = some (.string name)
  /-- The overlay tells its templates as a text. -/
  templates : ∃ text, overlay.get? templateField = some (.string text)
  /-- No other field is hidden. -/
  visible : ∀ field ∈ overlay.fields, field.1 ≠ originField → field.1 ≠ templateField →
    Text.opensWith field.1 "_" = false
  /-- There is something to show beside the two fields that tell the origin. -/
  nonempty : ∃ field ∈ overlay.fields, field.1 ≠ originField ∧ field.1 ≠ templateField
  /-- Every field has a value. -/
  notNull : ∀ field ∈ overlay.fields, field.2.isNull = false
  /-- Of the texts, only the display name and those that tell the origin may hold what looks like
  a placeholder. -/
  resolved : ∀ field ∈ overlay.fields, field.1 ≠ "name" → field.1 ≠ originField →
    field.1 ≠ templateField → field.2.isUnresolved = false

namespace Template

/-- A field that the overlay block keeps has a value, and this is a resolved text unless the field
is called `name`. The test for placeholders looks at the name as it is written, and `name` is the
only way of writing a field that may keep one. -/
theorem keepsField_of_mem_resolveOverlay {limits : Limits} {overlay : Fields Value}
    {scope : Variables} {field : String × Value}
    (h : field ∈ resolveOverlay limits overlay scope) :
    field.2.isNull = false ∧ (field.1 ≠ "name" → field.2.isUnresolved = false) := by
  obtain ⟨raw, _, hraw⟩ := List.mem_filterMap.mp (Fields.mem_of_mem_ofList h)
  simp only [Option.ite_none_right_eq_some, Option.some.injEq] at hraw
  obtain ⟨hkeeps, rfl⟩ := hraw
  simp only [keepsField, Bool.and_eq_true, Bool.or_eq_true, Bool.not_eq_true', beq_iff_eq]
    at hkeeps
  refine ⟨hkeeps.1, fun hname => hkeeps.2.resolve_left fun hwritten => hname ?_⟩
  have hplain : Placeholder.occurs "name" = false := by decide
  rw [hwritten]
  exact Limits.resolveName_of_not_occurs limits scope hplain

/-- The same holds of everything that a template produces. -/
theorem keepsField_of_mem_produce {template : Template} {limits : Limits} {arguments : Variables}
    {key : String} {field : String × Value} (h : field ∈ template.produce limits arguments key) :
    field.2.isNull = false ∧ (field.1 ≠ "name" → field.2.isUnresolved = false) := by
  unfold produce at h
  split at h
  · exact absurd h List.not_mem_nil
  · exact keepsField_of_mem_resolveOverlay h

end Template

namespace Setting

/-- Every field that a call contributes is a contribution. -/
theorem isContribution_of_fieldsOfCall? {setting : Setting} {seed : Variables}
    {call : TemplateCall} {fields : Fields Value}
    (h : setting.fieldsOfCall? seed call = some fields) {field : String × Value}
    (hfield : field ∈ fields) : Overlay.IsContribution field := by
  obtain ⟨template, _, rfl⟩ := Option.map_eq_some_iff.mp h
  obtain ⟨hmem, hpublic⟩ := List.mem_filter.mp hfield
  obtain ⟨hnull, hresolved⟩ := Template.keepsField_of_mem_produce hmem
  simp only [isPublic, Bool.and_eq_true, Bool.not_eq_true'] at hpublic
  exact ⟨hnull, hpublic.1, hresolved⟩

/-- Merging calls keeps names distinct and leaves contributions only. The induction is on the
calls, with what earlier calls have left as the invariant. -/
theorem merged_contributions (setting : Setting) (seed : Variables) (calls : List TemplateCall)
    {merged : Fields Value} (hdistinct : merged.Distinct)
    (hmerged : ∀ field ∈ merged, Overlay.IsContribution field) :
    let result := (setting.effectiveCalls seed calls).foldl
      (fun acc call => Fields.extend acc call.2) merged
    result.Distinct ∧ ∀ field ∈ result, Overlay.IsContribution field := by
  induction calls generalizing merged with
  | nil => exact ⟨hdistinct, hmerged⟩
  | cons call calls ih =>
    cases hcall : setting.fieldsOfCall? seed call with
    | none =>
      simp only [effectiveCalls, List.filterMap_cons, hcall, Option.map_none]
      exact ih hdistinct hmerged
    | some fields =>
      simp only [effectiveCalls, List.filterMap_cons, hcall, Option.map_some, List.foldl_cons]
      refine ih (hdistinct.extend fields) fun field hfield => ?_
      rcases Fields.mem_extend hfield with hold | hnew
      · exact hmerged field hold
      · exact isContribution_of_fieldsOfCall? hcall hnew

end Setting

namespace Overlay

/-- A contribution has none of the hidden names. -/
theorem IsContribution.ne_of_opensWith {field : String × Value} (h : IsContribution field)
    {hidden : String} (hhidden : Text.opensWith hidden "_" = true) : field.1 ≠ hidden := by
  intro heq
  have hvisible := h.visible
  rw [heq, hhidden] at hvisible
  cases hvisible

/-- A field of the overlay is a contribution or tells the origin. -/
theorem mem_fields_ofTemplates {name : String} {fields : Fields Value} {templates : List String}
    {field : String × Value} (h : field ∈ (ofTemplates name fields templates).fields) :
    field = (templateField, .string (Text.joined templateSeparator templates)) ∨
      field = (originField, .string name) ∨ field ∈ fields :=
  (Fields.mem_insert h).imp_right Fields.mem_insert

/-- An overlay of contributions, and of at least one, is well formed. -/
theorem wellFormed_ofTemplates (name : String) {fields : Fields Value} (templates : List String)
    (hdistinct : fields.Distinct) (hfields : ∀ field ∈ fields, IsContribution field)
    (hne : fields ≠ []) : (ofTemplates name fields templates).WellFormed name where
  distinct := (hdistinct.insert _ _).insert _ _
  origin := by
    simp [get?, ofTemplates, Fields.get?_insert, originField, templateField]
  templates := by
    refine ⟨Text.joined templateSeparator templates, ?_⟩
    simp [get?, ofTemplates, Fields.get?_insert]
  visible field hfield horigin htemplate := by
    rcases mem_fields_ofTemplates hfield with rfl | rfl | hmem
    · exact absurd rfl htemplate
    · exact absurd rfl horigin
    · exact (hfields field hmem).visible
  nonempty := by
    obtain ⟨field, hmem⟩ := List.exists_mem_of_ne_nil fields hne
    have horigin : field.1 ≠ originField := (hfields field hmem).ne_of_opensWith (by decide)
    have htemplate : field.1 ≠ templateField := (hfields field hmem).ne_of_opensWith (by decide)
    exact ⟨field, Fields.mem_insert_of_ne (Fields.mem_insert_of_ne hmem horigin _) htemplate _,
      horigin, htemplate⟩
  notNull field hfield := by
    rcases mem_fields_ofTemplates hfield with rfl | rfl | hmem
    · rfl
    · rfl
    · exact (hfields field hmem).notNull
  resolved field hfield hname horigin htemplate := by
    rcases mem_fields_ofTemplates hfield with rfl | rfl | hmem
    · exact absurd rfl htemplate
    · exact absurd rfl horigin
    · exact (hfields field hmem).resolved hname

end Overlay

namespace Setting

/-- Whatever calls make of an entry is well formed. -/
theorem wellFormed_of_expandCalls {setting : Setting} {name : String} {entry : Fields Value}
    {calls : Value} {overlay : Overlay}
    (h : setting.expandCalls name entry calls = some overlay) : overlay.WellFormed name := by
  obtain ⟨hdistinct, hcontributions⟩ := setting.merged_contributions (setting.seed name entry)
    (TemplateCall.listOf calls) Fields.distinct_nil (by simp)
  simp only [expandCalls, Option.ite_none_left_eq_some, Option.some.injEq] at h
  obtain ⟨hne, rfl⟩ := h
  exact Overlay.wellFormed_ofTemplates name _ hdistinct hcontributions (by simpa using hne)

/-- An entry with a `template` field is made by calls or not at all. -/
theorem exists_calls_of_expandEntry? {setting : Setting} {name : String} {entry : Value}
    {overlay : Overlay} (h : setting.expandEntry? name entry = some overlay)
    (htemplate : (entry.field? "template").isSome) :
    ∃ fields calls, setting.expandCalls name fields calls = some overlay := by
  obtain ⟨fields, hfields, hexpand⟩ := Option.bind_eq_some_iff.mp h
  obtain ⟨calls, hcalls⟩ := Option.isSome_iff_exists.mp htemplate
  rw [Value.field?, hfields, Option.bind_some] at hcalls
  rw [hcalls] at hexpand
  exact ⟨fields, calls, hexpand⟩

end Setting

namespace Document

/-- Every overlay of a document comes from one of its entries, and each that an entry with a
`template` field comes to is well formed, whatever the templates, the library and the variables
hold. -/
theorem expand_wellFormed (document : Document) (limits : Limits) (library : Fields Value)
    (user : Variables) :
    let setting := Setting.ofDocument limits document library user
    (∀ overlay, overlay ∈ document.expand limits library user ↔
      ∃ entry ∈ document.overlays, setting.expandEntry? entry.1 entry.2 = some overlay) ∧
    ∀ entry ∈ document.overlays, (entry.2.field? "template").isSome →
      ∀ overlay, setting.expandEntry? entry.1 entry.2 = some overlay →
        overlay.WellFormed entry.1 := by
  intro setting
  refine ⟨fun overlay => List.mem_filterMap, fun entry _ htemplate overlay hoverlay => ?_⟩
  obtain ⟨fields, calls, hcalls⟩ := Setting.exists_calls_of_expandEntry? hoverlay htemplate
  exact Setting.wellFormed_of_expandCalls hcalls

/-- A badge whose template names its fields by variables: one name is resolved to `name`, one to a
hidden name and one to the name of another field. -/
theorem expand_wellFormed_badge :
    let overlay : Value := .mapping [("name", .string "<<k>>"), ("<<n>>", .string "<<k>>"),
      ("<<h>>", .int 1), ("color", .string "red"), ("<<c>>", .string "blue")]
    let entry : Value := .mapping [("template", .string "badge")]
    let badge : Value := .mapping [("overlay", overlay)]
    let document : Document := ⟨none, [("badge", badge)], [("HDR", entry)]⟩
    let user : Variables := [("n", .string "name"), ("h", .string "_h"), ("c", .string "color")]
    let setting := Setting.ofDocument ⟨1, 0, 0, 64⟩ document [] user
    ∃ overlay, setting.expandEntry? "HDR" entry = some overlay ∧
      overlay.fields.names = ["name", "color", "_original_name", "_template"] ∧
      overlay.WellFormed "HDR" := by
  intro overlay entry badge document user setting
  have hnames : (setting.expandEntry? "HDR" entry).map (fun overlay => overlay.fields.names) =
      some ["name", "color", "_original_name", "_template"] := by
    decide +kernel
  obtain ⟨overlay, hexpand, hnames⟩ := Option.map_eq_some_iff.mp hnames
  have hentry : ("HDR", entry) ∈ document.overlays := List.mem_singleton_self _
  exact ⟨overlay, hexpand, hnames,
    (expand_wellFormed document ⟨1, 0, 0, 64⟩ [] user).2 _ hentry rfl _ hexpand⟩

end Document

end PosterOverlay
