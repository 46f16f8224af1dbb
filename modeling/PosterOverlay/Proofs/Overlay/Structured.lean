import PosterOverlay.Proofs.Overlay.WellFormed
import PosterOverlay.Proofs.Placeholder.Growth
import PosterOverlay.Proofs.Template.Invariant
import PosterOverlay.Proofs.Value.Texts

/-!
# Placeholders inside the structured fields of an overlay

The test that drops unresolved fields looks at texts only. A sequence or a mapping passes it with
whatever its texts were resolved to, and one that stands for a placeholder is taken over as it is.
This file says exactly when such a field holds no placeholder at any depth.
-/

namespace PosterOverlay

namespace Value

/-- No text inside the value looks as if it held a placeholder. -/
def IsClear (value : Value) : Prop :=
  ∀ text ∈ value.texts, Placeholder.occurs text = false

/-- Whether the value holds other values. -/
def isStructured : Value → Bool
  | sequence _ => true
  | mapping _ => true
  | _ => false

/-- A value that holds others holds no placeholder; a text may hold some. -/
def IsTidy (value : Value) : Prop :=
  value.isStructured = true → value.IsClear

instance (value : Value) : Decidable value.IsClear :=
  inferInstanceAs (Decidable (∀ text ∈ value.texts, Placeholder.occurs text = false))

instance : DecidablePred IsTidy := fun value =>
  inferInstanceAs (Decidable (value.isStructured = true → value.IsClear))

/-- A tidy value holds no placeholder exactly when it is not an unresolved text. -/
theorem IsTidy.isClear_iff {value : Value} (h : value.IsTidy) :
    value.IsClear ↔ value.isUnresolved = false := by
  cases value with
  | string s => simp [IsClear, texts, isUnresolved]
  | sequence _ => exact ⟨fun _ => rfl, fun _ => h rfl⟩
  | mapping _ => exact ⟨fun _ => rfl, fun _ => h rfl⟩
  | _ => simp [IsClear, texts, isUnresolved]

end Value

namespace Limits

variable (limits : Limits) (scope : Variables)

/-- A resolved value holds no placeholder exactly when none of its resolved texts does. -/
theorem isClear_resolve_iff (value : Value) :
    (limits.resolve scope value).IsClear ↔
      ∀ text ∈ value.texts, (limits.resolveText scope text).IsClear := by
  unfold Value.IsClear
  rw [texts_resolve, List.forall_mem_flatMap]

/-- Among tidy variables a text is resolved to a tidy value. -/
theorem isTidy_resolveText {scope : Variables} (h : scope.All Value.IsTidy) (text : String) :
    (limits.resolveText scope text).IsTidy := by
  have htext (text : String) : (Value.string text).IsTidy := nofun
  refine Placeholder.scanUpTo_induction (fun name value hvalue => ?_) (fun _ _ => htext _) _
    (htext text)
  exact h _ (Fields.mem_of_get? (Variables.get?_of_visible? hvalue))

/-- Resolving keeps values tidy, for it leaves alone what holds no placeholder. -/
theorem keeps_isTidy : limits.Keeps Value.IsTidy := by
  intro scope value hscope hvalue
  have hstructured (h : value.IsClear) : (limits.resolve scope value).IsTidy := by
    intro _
    refine (isClear_resolve_iff limits scope value).mpr fun text htext => ?_
    rw [resolveText_of_not_occurs limits scope (h text htext)]
    simpa [Value.IsClear, Value.texts] using h text htext
  cases value with
  | string s => exact isTidy_resolveText limits hscope s
  | sequence _ => exact hstructured (hvalue rfl)
  | mapping _ => exact hstructured (hvalue rfl)
  | _ => exact nofun

end Limits

namespace Setting

/-- The text of the key that a call hands to its template. -/
def keyOfCall (seed : Variables) (call : TemplateCall) : String :=
  (((arguments seed call).get? "key").map Value.text).getD ""

/-- A field of merged calls comes from one of them, or was there before. -/
theorem exists_call_of_mem_merged {calls : List (String × Fields Value)} {merged : Fields Value}
    {field : String × Value}
    (h : field ∈ calls.foldl (fun acc call => Fields.extend acc call.2) merged) :
    field ∈ merged ∨ ∃ call ∈ calls, field ∈ call.2 := by
  induction calls generalizing merged with
  | nil => exact .inl h
  | cons call calls ih =>
    rcases ih h with hmem | ⟨other, hother, hfield⟩
    · exact (Fields.mem_extend hmem).imp_right fun hnew => ⟨call, List.mem_cons_self, hnew⟩
    · exact .inr ⟨other, List.mem_cons_of_mem _ hother, hfield⟩

/-- The variables that a template sees when it is called. -/
def callScope (setting : Setting) (seed : Variables) (call : TemplateCall) (template : Template) :
    Variables :=
  template.environment setting.limits (arguments seed call) (keyOfCall seed call)

/-- No structured value that the variables of a call are made from has a placeholder inside. -/
structure TidyCall (setting : Setting) (seed : Variables) (call : TemplateCall)
    (template : Template) : Prop where
  /-- The variables that the call hands over are tidy. -/
  arguments : Variables.All Value.IsTidy (arguments seed call)
  /-- The defaults of the template are tidy. -/
  defaults : Variables.All Value.IsTidy template.defaults
  /-- The results of its conditionals are tidy. -/
  computed : Variables.All Value.IsTidy (template.conditionals.evaluate setting.limits
    (template.initial setting.limits (Setting.arguments seed call) (keyOfCall seed call)))

/-- In a tidy call every variable is tidy. -/
theorem TidyCall.callScope {setting : Setting} {seed : Variables} {call : TemplateCall}
    {template : Template} (h : setting.TidyCall seed call template) :
    Variables.All Value.IsTidy (setting.callScope seed call template) :=
  Template.all_environment (Limits.keeps_isTidy setting.limits) h.arguments nofun h.defaults
    h.computed

/-- Every structured field of an overlay made by calls is produced by the template of one of the
calls. -/
theorem exists_template_of_mem_fields {setting : Setting} {name : String} {entry : Fields Value}
    {calls : Value} {overlay : Overlay}
    (h : setting.expandCalls name entry calls = some overlay) {field : String × Value}
    (hfield : field ∈ overlay.fields) (hstructured : field.2.isStructured = true) :
    ∃ call ∈ TemplateCall.listOf calls, ∃ template,
      setting.template? call.template = some template ∧
      field ∈ template.produce setting.limits (arguments (setting.seed name entry) call)
        (keyOfCall (setting.seed name entry) call) := by
  simp only [expandCalls, Option.ite_none_left_eq_some, Option.some.injEq] at h
  obtain ⟨_, rfl⟩ := h
  rcases Overlay.mem_fields_ofTemplates hfield with rfl | rfl | hmem
  · cases hstructured
  · cases hstructured
  · have hmerged := exists_call_of_mem_merged hmem
    obtain ⟨_, heffective, hproduced⟩ := hmerged.resolve_left List.not_mem_nil
    obtain ⟨call, hcall, hcontributed⟩ := List.mem_filterMap.mp heffective
    obtain ⟨fields, hfields, rfl⟩ := Option.map_eq_some_iff.mp hcontributed
    obtain ⟨template, htemplate, rfl⟩ := Option.map_eq_some_iff.mp hfields
    exact ⟨call, hcall, template, htemplate, (List.mem_filter.mp hproduced).1⟩

end Setting

namespace Document

/-- Whether a structured field of an overlay holds a placeholder is decided by the texts that
stand for it in the overlay block of a called template: it holds none exactly when all of them are
resolved to values that hold none. In a tidy call this is so exactly when none of them is resolved
to an unresolved text. -/
theorem isClear_structured_iff (document : Document) (limits : Limits) (library : Fields Value)
    (user : Variables) :
    let setting := Setting.ofDocument limits document library user
    ∀ name entry calls, (name, .mapping entry) ∈ document.overlays →
      Fields.get? entry "template" = some calls →
    ∀ overlay, setting.expandEntry? name (.mapping entry) = some overlay →
    ∀ field ∈ overlay.fields, field.2.isStructured = true →
      ∃ call ∈ TemplateCall.listOf calls, ∃ template,
        setting.template? call.template = some template ∧
        let scope := setting.callScope (setting.seed name entry) call template
        ∃ written ∈ template.overlay,
          field = (setting.limits.resolveName scope written.1,
            setting.limits.resolve scope written.2) ∧
          (field.2.IsClear ↔
            ∀ text ∈ written.2.texts, (setting.limits.resolveText scope text).IsClear) ∧
          (setting.TidyCall (setting.seed name entry) call template →
            (field.2.IsClear ↔ ∀ text ∈ written.2.texts,
              (setting.limits.resolveText scope text).isUnresolved = false)) := by
  intro setting name entry calls _ hcalls overlay hoverlay field hfield hstructured
  have hexpand : setting.expandCalls name entry calls = some overlay := by
    rw [Setting.expandEntry?, Value.mapping?, Option.bind_some, hcalls] at hoverlay
    exact hoverlay
  obtain ⟨call, hcall, template, htemplate, hproduced⟩ :=
    Setting.exists_template_of_mem_fields hexpand hfield hstructured
  obtain ⟨written, hwritten, _, hresolved⟩ := Template.exists_of_mem_produce hproduced
  have hclear : field.2.IsClear ↔ ∀ text ∈ written.2.texts, (setting.limits.resolveText
      (setting.callScope (setting.seed name entry) call template) text).IsClear := by
    rw [hresolved]
    exact Limits.isClear_resolve_iff _ _ _
  refine ⟨call, hcall, template, htemplate, written, hwritten, hresolved, hclear, fun htidy => ?_⟩
  refine hclear.trans (forall₂_congr fun text _ => ?_)
  exact (Limits.isTidy_resolveText setting.limits htidy.callScope text).isClear_iff

/-- A mapping of a template is filled in from a text and from a mapping of the user, neither of
which has a placeholder inside. -/
theorem isClear_structured_badge :
    let back : Value := .mapping [("color", .string "<<tint>>"), ("text", .string "<<style>>")]
    let badge : Value := .mapping [("overlay", .mapping [("back", back)])]
    let entry : Fields Value := [("template", .string "badge")]
    let document : Document := ⟨none, [("badge", badge)], [("movie-hd", .mapping entry)]⟩
    let user : Variables := [("tint", .string "red"),
      ("style", .mapping [("font", .string "Inter")])]
    ∃ overlay ∈ document.expand .standard [] user, ∃ field ∈ overlay.fields,
      field.2.texts = ["red", "Inter"] ∧ field.2.IsClear := by
  intro back badge entry document user
  let setting := Setting.ofDocument .standard document [] user
  have hfields : (setting.expandEntry? "movie-hd" (.mapping entry)).map (fun overlay =>
      overlay.fields.map fun field => (field.2.isStructured, field.2.texts)) =
        some [(true, ["red", "Inter"]), (false, ["movie-hd"]), (false, ["badge"])] := by
    decide +kernel
  obtain ⟨overlay, hoverlay, hfields⟩ := Option.map_eq_some_iff.mp hfields
  have hback : (true, ["red", "Inter"]) ∈ overlay.fields.map fun field =>
      (field.2.isStructured, field.2.texts) := by
    rw [hfields]
    exact List.mem_cons_self
  obtain ⟨field, hfield, heq⟩ := List.mem_map.mp hback
  obtain ⟨hstructured, htexts⟩ := Prod.mk.inj heq
  have hentry : ("movie-hd", .mapping entry) ∈ document.overlays := List.mem_singleton_self _
  obtain ⟨call, hcall, template, htemplate, written, hwritten, _, _, hclear⟩ :=
    isClear_structured_iff document .standard [] user "movie-hd" entry (.string "badge") hentry rfl
      overlay hoverlay field hfield hstructured
  obtain rfl : call = ⟨"badge", []⟩ := List.mem_singleton.mp hcall
  have hbadge : setting.template? "badge" = some ⟨[], [], [("back", back)]⟩ := rfl
  obtain rfl := Option.some.inj (hbadge.symm.trans htemplate)
  obtain rfl : written = ("back", back) := List.mem_singleton.mp hwritten
  have htidy : setting.TidyCall (setting.seed "movie-hd" entry) ⟨"badge", []⟩
      ⟨[], [], [("back", back)]⟩ := ⟨by decide +kernel, by decide +kernel, by decide +kernel⟩
  refine ⟨overlay, List.mem_filterMap.mpr ⟨_, hentry, hoverlay⟩, field, hfield, htexts, ?_⟩
  exact (hclear htidy).mpr (by decide +kernel)

/-- A mapping of a template keeps the placeholder of an unknown variable inside, and a mapping of
the user keeps that of a variable which is bound. -/
theorem structured_unresolved :
    let back : Value := .mapping [("color", .string "<<missing>>")]
    let badge : Value := .mapping [("overlay", .mapping [("name", .string "<<key>>"),
      ("back", back), ("text", .string "<<style>>")])]
    let entry : Fields Value := [("template", .string "badge")]
    let document : Document := ⟨none, [("badge", badge)], [("movie-hd", .mapping entry)]⟩
    let user : Variables := [("style", .mapping [("color", .string "<<tint>>")]),
      ("tint", .string "red")]
    ∃ overlay ∈ document.expand .standard [] user,
      ∃ unknown ∈ overlay.fields, ∃ bound ∈ overlay.fields,
        unknown.1 = "back" ∧ unknown.2.isStructured = true ∧ ¬unknown.2.IsClear ∧
        bound.1 = "text" ∧ bound.2.isStructured = true ∧ ¬bound.2.IsClear := by
  intro back badge entry document user
  decide +kernel

end Document

end PosterOverlay
