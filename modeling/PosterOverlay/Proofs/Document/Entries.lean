import Mathlib.Data.List.Basic
import PosterOverlay.Catalog
import PosterOverlay.Proofs.Document.Layers
import PosterOverlay.Proofs.Overlay.Origin
import PosterOverlay.Proofs.Placeholder.Lookup

/-!
# Every entry on its own

The entries of a document share its templates, its variables and the library that it asks for, and
nothing else. A document therefore comes to what its parts come to, one after another on one
catalog. And an overlay depends on nothing but its entry, the variables of the setting and, if it
calls templates, on the called templates and the conditionals beneath them.
-/

namespace PosterOverlay

namespace Catalog

/-- Asking for a library again answers the same and changes nothing, as long as the files stay: a
library that was read is kept, and one that could not be read still cannot. -/
theorem load_load (catalog : Catalog) (read : Reader) (source : String) :
    (catalog.load read source).2.load read source = catalog.load read source := by
  cases hheld : catalog.held.get? (Text.trim source) with
  | some templates => simp [load, hheld]
  | none =>
    cases hread : templatesOf (read (pathOf catalog.directory (Text.trim source))) with
    | error failure => simp [load, hheld, hread]
    | ok templates => simp [load, hheld, hread, Fields.get?_insert]

/-- The same holds of the library that a document asks for. -/
theorem loadFor_loadFor (catalog : Catalog) (read : Reader) (document : Document) :
    (catalog.loadFor read document).2.loadFor read document = catalog.loadFor read document := by
  unfold loadFor
  cases document.external? with
  | none => rfl
  | some external => exact catalog.load_load read external.source

end Catalog

/-! ### The parts of a document -/

namespace Setting

/-- The overlays of entries tell the names of some of them, in their order. -/
theorem map_originalName?_sublist (setting : Setting) (overlays : Fields Value) :
    ((overlays.filterMap fun entry => setting.expandEntry? entry.1 entry.2).map
      Overlay.originalName?).Sublist (overlays.names.map some) := by
  induction overlays with
  | nil => exact .slnil
  | cons entry rest ih =>
    cases hoverlay : setting.expandEntry? entry.1 entry.2 with
    | none =>
      simp only [List.filterMap_cons, hoverlay]
      exact ih.cons _
    | some overlay =>
      simp only [List.filterMap_cons, hoverlay, List.map_cons,
        originalName?_of_expandEntry hoverlay]
      exact ih.cons_cons _

end Setting

namespace Document

/-- The document that a mapping describes when these overlays are declared in it. -/
def declaring (fields overlays : Fields Value) : Document :=
  .ofValue (.mapping (fields.insert "overlays" (.mapping overlays)))

/-- Declaring other overlays changes nothing else in a document. -/
theorem declaring_eq (fields overlays : Fields Value) :
    declaring fields overlays = { ofValue (.mapping fields) with overlays } := by
  simp [declaring, ofValue, Value.section?, Value.field?, Value.mapping?, Fields.get?_insert]

end Document

namespace Catalog

section Parts

variable (catalog : Catalog) (read : Reader) (limits : Limits) (fields : Fields Value)
  (user : Variables)

/-- The setting in which the overlays of a document are made, whichever overlays it declares. -/
def settingFor : Setting :=
  .ofDocument limits (.ofValue (.mapping fields))
    (catalog.loadFor read (.ofValue (.mapping fields))).1 user

/-- Whichever overlays a document declares, they are made one by one in the same setting, and the
catalog afterwards is the same. -/
theorem expand_declaring (overlays : Fields Value) :
    catalog.expand read limits (.declaring fields overlays) user =
      (overlays.filterMap fun entry =>
        Setting.expandEntry? (catalog.settingFor read limits fields user) entry.1 entry.2,
        (catalog.loadFor read (.ofValue (.mapping fields))).2) := by
  rw [Document.declaring_eq]
  rfl

/-- An expansion leaves the catalog so that the next one finds the same library. -/
theorem expand_expand_declaring (front back : Fields Value) :
    (catalog.expand read limits (.declaring fields front) user).2.expand read limits
        (.declaring fields back) user =
      catalog.expand read limits (.declaring fields back) user := by
  simp only [expand_declaring, settingFor, loadFor_loadFor]

/-- A document comes to what its parts come to, one after another on one catalog; what a part comes
to does not depend on the parts before it. So every entry comes to at most one overlay, which is
the same whichever other entries there are, and the overlays tell the names of entries in the order
in which these are declared. -/
theorem expand_declaring_append :
    let expansion (catalog : Catalog) (overlays : Fields Value) : List Overlay × Catalog :=
      catalog.expand read limits (.declaring fields overlays) user
    (∀ front back : Fields Value,
      let first := expansion catalog front
      let second := expansion first.2 back
      expansion catalog (front ++ back) = (first.1 ++ second.1, second.2) ∧
        second = expansion catalog back) ∧
    ∀ overlays : Fields Value,
      (expansion catalog overlays).1 =
        overlays.flatMap (fun entry => (expansion catalog [entry]).1) ∧
      (∀ entry, (expansion catalog [entry]).1.length ≤ 1) ∧
      ((expansion catalog overlays).1.map Overlay.originalName?).Sublist
        (overlays.names.map some) := by
  intro expansion
  have hsecond (front back : Fields Value) :
      expansion (expansion catalog front).2 back = expansion catalog back :=
    expand_expand_declaring catalog read limits fields user front back
  have happend (front back : Fields Value) : (expansion catalog (front ++ back)).1 =
      (expansion catalog front).1 ++ (expansion catalog back).1 := by
    simp only [expansion, expand_declaring, List.filterMap_append]
  refine ⟨fun front back => ⟨?_, hsecond front back⟩, fun overlays => ⟨?_, ?_, ?_⟩⟩
  · rw [hsecond, ← happend]
    simp only [expansion, expand_declaring]
  · induction overlays with
    | nil => simp only [expansion, expand_declaring, List.filterMap_nil, List.flatMap_nil]
    | cons entry rest ih => rw [List.flatMap_cons, ← ih, ← happend, List.singleton_append]
  · intro entry
    simp only [expansion, expand_declaring]
    exact List.length_filterMap_le _ [entry]
  · simp only [expansion, expand_declaring]
    exact (catalog.settingFor read limits fields user).map_originalName?_sublist overlays

end Parts

/-- A badge, which is made by a template of the library, comes before two further entries, of which
one calls a template that does not exist. The library is read for the first part and kept for the
second one. -/
theorem expand_declaring_append_badge :
    let library := "templates:\n  badge:\n    overlay:\n      name: <<key>>"
    let read : Reader := fun path =>
      if path = "lib/templates.yml" then .ok library else .error (.missing path)
    let fields : Fields Value := [("external_templates", .mapping [])]
    let front : Fields Value := [("movie-hd", .mapping [("template", .string "badge")])]
    let back : Fields Value := [("gone", .mapping [("template", .string "other")]),
      ("logo", .mapping [("overlay", .mapping [("name", .string "acme")])])]
    let expansion (catalog : Catalog) (overlays : Fields Value) : List Overlay × Catalog :=
      catalog.expand read .standard (.declaring fields overlays) []
    let first := expansion (.inDirectory "lib") front
    let second := expansion first.2 back
    expansion (.inDirectory "lib") (front ++ back) = (first.1 ++ second.1, second.2) ∧
    second = expansion (.inDirectory "lib") back ∧
    first.2.holds "templates" = true ∧
    first.1.map Overlay.displayName = ["movie-hd"] ∧
    second.1.map Overlay.displayName = ["logo"] := by
  intro library read fields front back expansion first second
  obtain ⟨hparts, -⟩ := expand_declaring_append (.inDirectory "lib") read .standard fields []
  obtain ⟨happend, hsecond⟩ := hparts front back
  exact ⟨happend, hsecond, by decide +kernel, by decide +kernel, by decide +kernel⟩

end Catalog

/-! ### What an overlay depends on -/

namespace Setting

variable {first second : Setting}

/-- A direct block is written out alike in two settings whose variables look alike. -/
theorem expandDirect_eq (hlimits : first.limits = second.limits)
    (hscope : first.scope.LookAlike second.scope) (name : String) (direct : Fields Value) :
    first.expandDirect name direct = second.expandDirect name direct := by
  rw [expandDirect, expandDirect, hlimits, hscope.resolveFields_eq]

/-- Two settings agree on all that some template calls see of them. -/
structure AgreeOn (first second : Setting) (calls : List TemplateCall) : Prop where
  /-- The variables are the same, in the same order. It does not do that lookups answer alike, see
  `expandCalls_ne_of_reverse`: variables that refer to each other are resolved one after another. -/
  scope : first.scope = second.scope
  /-- The conditionals beneath those of templates are the same. -/
  fallback : first.fallback = second.fallback
  /-- Under the name of a called template there is the same value, or none. -/
  templates : ∀ call ∈ calls,
    first.templates.get? call.template = second.templates.get? call.template

/-- Two variables that refer to each other are looked up alike in either order, and yet a call of
the same template makes another overlay: the variable that is resolved first comes to hold its own
placeholder, and is not put in for its placeholders any more. -/
theorem expandCalls_ne_of_reverse :
    let badge : Value := .mapping [("overlay", .mapping [("name", .string "<<a>>")])]
    let setting (scope : Variables) : Setting := ⟨⟨1, 1, 1, 100⟩, [("badge", badge)], [], scope⟩
    let scope : Variables := [("a", .string "1<<b>>"), ("b", .string "2<<a>>")]
    (∀ name, Fields.get? scope name = Fields.get? scope.reverse name) ∧
    (setting scope).expandCalls "movie-hd" [] (.string "badge") ≠
      (setting scope.reverse).expandCalls "movie-hd" [] (.string "badge") := by
  intro badge setting scope
  have hdistinct : Fields.Distinct scope := by decide
  refine ⟨fun name => hdistinct.get?_perm (List.reverse_perm scope).symm name, fun h => ?_⟩
  let label (overlay? : Option Overlay) : Option String :=
    (overlay?.bind fun overlay => overlay.get? "name").bind Value.string?
  have hlabel : label ((setting scope).expandCalls "movie-hd" [] (.string "badge")) =
      some "<<a>>" := by
    decide +kernel
  have hreverse : label ((setting scope.reverse).expandCalls "movie-hd" [] (.string "badge")) =
      some "1<<b>>" := by
    decide +kernel
  rw [h, hreverse] at hlabel
  exact absurd hlabel (by decide)

/-- Calls make the same of an entry in two settings that agree on them. -/
theorem expandCalls_eq (hlimits : first.limits = second.limits) {calls : Value}
    (h : first.AgreeOn second (TemplateCall.listOf calls)) (name : String)
    (entry : Fields Value) :
    first.expandCalls name entry calls = second.expandCalls name entry calls := by
  have hseed : first.seed name entry = second.seed name entry := by
    rw [seed, seed, h.scope]
  have hfields (call : TemplateCall) (hcall : call ∈ TemplateCall.listOf calls)
      (scope : Variables) :
      first.fieldsOfCall? scope call = second.fieldsOfCall? scope call := by
    rw [fieldsOfCall?, fieldsOfCall?, template?, template?, h.templates call hcall, h.fallback,
      hlimits]
  have heffective (scope : Variables) :
      first.effectiveCalls scope (TemplateCall.listOf calls) =
        second.effectiveCalls scope (TemplateCall.listOf calls) := by
    refine List.filterMap_congr fun call hcall => ?_
    rw [hfields call hcall]
  rw [expandCalls, expandCalls, hseed, heffective]

/-- No overlay tells a name that no entry has. -/
theorem filter_originalName?_eq_nil (setting : Setting) {overlays : Fields Value} {name : String}
    (h : name ∉ overlays.names) :
    (overlays.filterMap fun entry => setting.expandEntry? entry.1 entry.2).filter
      (fun overlay => overlay.originalName? == some name) = [] := by
  refine List.filter_eq_nil_iff.mpr fun overlay hoverlay => ?_
  obtain ⟨entry, hentry, hexpand⟩ := List.mem_filterMap.mp hoverlay
  rw [originalName?_of_expandEntry hexpand]
  intro heq
  cases eq_of_beq heq
  exact h (List.mem_map_of_mem hentry)

/-- Of the overlays of entries with distinct names, the one that tells a name is what the entry of
that name comes to. -/
theorem filter_originalName?_eq (setting : Setting) {overlays : Fields Value}
    (hdistinct : overlays.Distinct) {name : String} {entry : Value}
    (h : overlays.get? name = some entry) :
    (overlays.filterMap fun entry => setting.expandEntry? entry.1 entry.2).filter
      (fun overlay => overlay.originalName? == some name) =
        (setting.expandEntry? name entry).toList := by
  induction overlays with
  | nil => cases h
  | cons bound rest ih =>
    obtain ⟨bound, value⟩ := bound
    obtain ⟨hnew, hrest⟩ := hdistinct.cons
    rw [Fields.get?_cons] at h
    by_cases heq : bound = name
    · rw [if_pos heq] at h
      cases h
      subst heq
      have hnone := setting.filter_originalName?_eq_nil hnew
      cases hoverlay : setting.expandEntry? bound entry with
      | none => simpa [hoverlay] using hnone
      | some overlay => simpa [hoverlay, originalName?_of_expandEntry hoverlay] using hnone
    · rw [if_neg heq] at h
      have hih := ih hrest h
      cases hoverlay : setting.expandEntry? bound value with
      | none => simpa [hoverlay] using hih
      | some overlay => simpa [hoverlay, originalName?_of_expandEntry hoverlay, heq] using hih

end Setting

/-- A document together with all that goes into its expansion besides the limits. -/
structure Expansion where
  /-- The document. -/
  document : Document
  /-- The templates of the library that the document asks for. -/
  library : Fields Value
  /-- The variables of the user. -/
  user : Variables

namespace Expansion

/-- The setting in which the entries are expanded. -/
def setting (expansion : Expansion) (limits : Limits) : Setting :=
  .ofDocument limits expansion.document expansion.library expansion.user

/-- The overlays that tell the name of an entry. -/
def overlaysOf (expansion : Expansion) (limits : Limits) (name : String) : List Overlay :=
  (expansion.document.expand limits expansion.library expansion.user).filter
    fun overlay => overlay.originalName? == some name

/-- The document writes out an overlay directly: it declares an entry of the name with a direct
block and without calls. -/
def WritesOut (expansion : Expansion) (name : String) (direct : Fields Value) : Prop :=
  ∃ entry, expansion.document.overlays.get? name = some entry ∧
    entry.field? "template" = none ∧ entry.field? "overlay" = some (.mapping direct)

/-- What the overlays that tell a name are depends on the entry of that name only. -/
theorem overlaysOf_eq (expansion : Expansion) (limits : Limits)
    (hdistinct : expansion.document.overlays.Distinct) {name : String} {entry : Value}
    (h : expansion.document.overlays.get? name = some entry) :
    expansion.overlaysOf limits name =
      (Setting.expandEntry? (expansion.setting limits) name entry).toList :=
  (expansion.setting limits).filter_originalName?_eq hdistinct h

/-- The overlay of a direct block is the same wherever the block is written out under the same name
and the variables answer lookups alike. The overlay of an entry with calls is the same, or there is
none, wherever the entry stands under the same name and the settings agree on its calls. Nothing
else matters: no other entry or template, nor where a template comes from. -/
theorem overlaysOf_agree (limits : Limits) {first second : Expansion}
    (hfirst : first.document.overlays.Distinct) (hsecond : second.document.overlays.Distinct)
    (name : String) :
    (∀ direct, first.WritesOut name direct → second.WritesOut name direct →
      (∀ key, Fields.get? (first.setting limits).scope key =
        Fields.get? (second.setting limits).scope key) →
      ∃ overlay, first.overlaysOf limits name = [overlay] ∧
        second.overlaysOf limits name = [overlay]) ∧
    (∀ entry calls, first.document.overlays.get? name = some entry →
      second.document.overlays.get? name = some entry → entry.field? "template" = some calls →
      (first.setting limits).AgreeOn (second.setting limits) (TemplateCall.listOf calls) →
      first.overlaysOf limits name = second.overlaysOf limits name ∧
        (first.overlaysOf limits name).length ≤ 1) := by
  have hlimits : (first.setting limits).limits = (second.setting limits).limits :=
    (Setting.limits_ofDocument _ _ _ _).trans (Setting.limits_ofDocument _ _ _ _).symm
  constructor
  · rintro direct ⟨entry, hentry, htemplate, hdirect⟩ ⟨other, hother, htemplate', hdirect'⟩ hscope
    refine ⟨(first.setting limits).expandDirect name direct, ?_, ?_⟩
    · rw [first.overlaysOf_eq limits hfirst hentry,
        Setting.expandEntry?_of_direct _ _ htemplate hdirect]
      rfl
    · rw [second.overlaysOf_eq limits hsecond hother,
        Setting.expandEntry?_of_direct _ _ htemplate' hdirect',
        Setting.expandDirect_eq hlimits (Variables.lookAlike_of_get? hscope)]
      rfl
  · intro entry calls hentry hother hcalls hagree
    have hexpand : Setting.expandEntry? (first.setting limits) name entry =
        Setting.expandEntry? (second.setting limits) name entry := by
      rw [Setting.expandEntry?_of_calls _ _ hcalls, Setting.expandEntry?_of_calls _ _ hcalls,
        Setting.expandCalls_eq hlimits hagree]
    rw [first.overlaysOf_eq limits hfirst hentry, second.overlaysOf_eq limits hsecond hother,
      hexpand]
    refine ⟨rfl, ?_⟩
    cases Setting.expandEntry? (second.setting limits) name entry <;> simp

/-- A badge and a logo are declared in two documents. In one of them the template and the color come
with the document and its user, in the other one with the library outside. -/
theorem overlaysOf_agree_badge :
    let badge : Value := .mapping [("overlay", .mapping [("name", .string "<<key>>"),
      ("color", .string "<<tint>>")])]
    let movie : Value := .mapping [("template", .string "badge")]
    let direct : Fields Value := [("name", .string "acme"), ("color", .string "<<tint>>")]
    let logo : Value := .mapping [("overlay", .mapping direct)]
    let tinted : Value := .mapping [("variables", .mapping [("tint", .string "blue")]),
      ("overlay", .mapping direct)]
    let first : Expansion :=
      ⟨⟨none, [("badge", badge)], [("movie-hd", movie), ("logo", logo)]⟩, [],
        [("tint", .string "red")]⟩
    let second : Expansion :=
      ⟨⟨some ⟨"templates", [("tint", .string "red")], []⟩, [("other", .null)],
        [("logo", tinted), ("movie-hd", movie)]⟩, [("badge", badge)], []⟩
    (∃ overlay, first.overlaysOf .standard "logo" = [overlay] ∧
      second.overlaysOf .standard "logo" = [overlay]) ∧
    first.overlaysOf .standard "movie-hd" = second.overlaysOf .standard "movie-hd" ∧
    (first.overlaysOf .standard "movie-hd").length = 1 := by
  intro badge movie direct logo tinted first second
  have hfirst : first.document.overlays.Distinct := by decide
  have hsecond : second.document.overlays.Distinct := by decide
  have hscope : (first.setting .standard).scope = (second.setting .standard).scope := rfl
  have hcalls : (first.setting .standard).AgreeOn (second.setting .standard)
      (TemplateCall.listOf (.string "badge")) := by
    refine ⟨hscope, rfl, fun call hcall => ?_⟩
    cases List.mem_singleton.mp hcall
    rfl
  obtain ⟨hlogo, _⟩ := overlaysOf_agree .standard hfirst hsecond "logo"
  obtain ⟨_, hmovie⟩ := overlaysOf_agree .standard hfirst hsecond "movie-hd"
  refine ⟨hlogo direct ⟨logo, rfl, rfl, rfl⟩ ⟨tinted, rfl, rfl, rfl⟩ fun key => by rw [hscope],
    (hmovie movie (.string "badge") rfl rfl rfl hcalls).1, by decide +kernel⟩

end Expansion

end PosterOverlay
