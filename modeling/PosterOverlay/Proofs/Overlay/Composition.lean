import Mathlib.Data.List.Basic
import PosterOverlay.Proofs.Overlay.Origin
import PosterOverlay.Proofs.Overlay.Structured

/-!
# What several template calls come to together

An entry calls templates one after another. Each field of the overlay has the value that the last
call producing the field gives it. A call whose template is missing or malformed does nothing, and
neither does an item that is no call; a call that leaves a field without a value does not take away
the value of an earlier one.
-/

namespace PosterOverlay

/-- What a template produces binds no name twice. -/
theorem Template.distinct_produce (template : Template) (limits : Limits) (arguments : Variables)
    (key : String) : Fields.Distinct (template.produce limits arguments key) := by
  unfold produce
  split
  · exact Fields.distinct_nil
  · exact Fields.distinct_ofList _

namespace Setting

variable (setting : Setting) (seed : Variables)

/-- Whether a call has an effect: there is a template of the name, and it can be read. -/
def isEffective (call : TemplateCall) : Bool :=
  ((setting.templates.get? call.template).bind Template.ofValue?).isSome

/-- Whether an item of a list of calls is a call that has an effect. -/
def isEffectiveItem (item : Value) : Bool :=
  (TemplateCall.ofValue? item).any setting.isEffective

/-- The fields that the template of a call produces, when the call has an effect. -/
def produced? (call : TemplateCall) : Option (Fields Value) :=
  (setting.template? call.template).map fun template =>
    template.produce setting.limits (arguments seed call) (keyOfCall seed call)

/-- The value that the last of the calls producing a field gives it. -/
def lastProduced? (calls : List TemplateCall) (name : String) : Option Value :=
  calls.reverse.findSome? fun call => (setting.produced? seed call).bind (Fields.get? · name)

/-- Of two lists of calls, the later one is asked first. -/
theorem lastProduced?_append (front back : List TemplateCall) (name : String) :
    setting.lastProduced? seed (front ++ back) name =
      (setting.lastProduced? seed back name).or (setting.lastProduced? seed front name) := by
  rw [lastProduced?, List.reverse_append, List.findSome?_append]
  rfl

/-- Something is produced exactly by the calls that have an effect. -/
theorem isSome_produced? (call : TemplateCall) :
    (setting.produced? seed call).isSome = setting.isEffective call := by
  rw [produced?, template?, Option.isSome_map, Option.isSome_map, isEffective]

/-- A call contributes the visible ones of the fields that it produces. -/
theorem fieldsOfCall?_eq (call : TemplateCall) :
    setting.fieldsOfCall? seed call =
      (setting.produced? seed call).map (List.filter isPublic) := by
  rw [produced?, Option.map_map]
  rfl

/-- The calls that contribute are those that have an effect, in the same order. -/
theorem map_fst_effectiveCalls (calls : List TemplateCall) :
    (setting.effectiveCalls seed calls).map Prod.fst =
      (calls.filter setting.isEffective).map TemplateCall.template := by
  induction calls with
  | nil => rfl
  | cons call calls ih =>
    have heffective := setting.isSome_produced? seed call
    rw [effectiveCalls] at ih ⊢
    rw [List.filterMap_cons, fieldsOfCall?_eq]
    cases hproduced : setting.produced? seed call with
    | none =>
      rw [hproduced, Option.isSome_none] at heffective
      rw [List.filter_cons_of_neg (by simp [← heffective])]
      exact ih
    | some fields =>
      rw [hproduced, Option.isSome_some] at heffective
      rw [List.filter_cons_of_pos heffective.symm]
      exact congrArg (call.template :: ·) ih

/-- A call that has no effect contributes nothing. -/
theorem fieldsOfCall?_of_not_isEffective {call : TemplateCall}
    (h : setting.isEffective call = false) : setting.fieldsOfCall? seed call = none := by
  rw [← setting.isSome_produced? seed, Option.isSome_eq_false_iff, Option.isNone_iff_eq_none] at h
  rw [fieldsOfCall?_eq, h, Option.map_none]

/-- Items that have no effect make no difference. -/
theorem effectiveCalls_listOf (items : List Value) :
    setting.effectiveCalls seed (TemplateCall.listOf (.sequence items)) =
      setting.effectiveCalls seed
        (TemplateCall.listOf (.sequence (items.filter setting.isEffectiveItem))) := by
  simp only [effectiveCalls, TemplateCall.listOf, List.filterMap_filterMap, List.filterMap_filter]
  refine List.filterMap_congr fun item _ => ?_
  split
  · rfl
  · rename_i hitem
    cases hcall : TemplateCall.ofValue? item with
    | none => rfl
    | some call =>
      have hineffective : setting.isEffective call = false := by
        simpa [isEffectiveItem, hcall] using hitem
      rw [Option.bind_some, fieldsOfCall?_of_not_isEffective setting seed hineffective]
      rfl

/-! ### The merged fields -/

/-- The fields that calls contribute, later ones over earlier ones. -/
def merged (calls : List TemplateCall) : Fields Value :=
  (setting.effectiveCalls seed calls).foldl (fun acc call => Fields.extend acc call.2) []

variable {setting seed}

/-- What a call produces binds no name twice. -/
theorem distinct_of_produced? {call : TemplateCall} {fields : Fields Value}
    (h : setting.produced? seed call = some fields) : fields.Distinct := by
  obtain ⟨template, _, rfl⟩ := Option.map_eq_some_iff.mp h
  exact template.distinct_produce _ _ _

/-- A visible field reaches the overlay as it is produced, for no field is produced without a
value. -/
theorem get?_filter_isPublic {call : TemplateCall} {fields : Fields Value}
    (h : setting.produced? seed call = some fields) {name : String}
    (hvisible : Text.opensWith name "_" = false) :
    Fields.get? (List.filter isPublic fields) name = fields.get? name := by
  have hdistinct := distinct_of_produced? h
  ext value
  rw [hdistinct.get?_filter, Option.filter_eq_some_iff]
  refine and_iff_left_of_imp fun hvalue => ?_
  obtain ⟨template, _, rfl⟩ := Option.map_eq_some_iff.mp h
  have hkept := Template.keepsField_of_mem_produce (Fields.mem_of_get? hvalue)
  rw [isPublic, hvisible, hkept.1]
  rfl

/-- A visible field of the merged fields has the value that the last call producing it gives. -/
theorem get?_merged (calls : List TemplateCall) {name : String}
    (hvisible : Text.opensWith name "_" = false) :
    (setting.merged seed calls).get? name = setting.lastProduced? seed calls name := by
  have hdistinct (call : String × Fields Value) (hcall : call ∈ setting.effectiveCalls seed calls) :
      Fields.Distinct call.2 := by
    obtain ⟨made, _, hmade⟩ := List.mem_filterMap.mp hcall
    rw [fieldsOfCall?_eq, Option.map_map, Option.map_eq_some_iff] at hmade
    obtain ⟨fields, hfields, rfl⟩ := hmade
    exact (distinct_of_produced? hfields).filter _
  rw [merged, Fields.get?_foldl_extend Prod.snd hdistinct, Fields.get?_nil, Option.or_none,
    effectiveCalls, ← List.filterMap_reverse, ← List.head?_filterMap, List.filterMap_filterMap,
    List.head?_filterMap, lastProduced?]
  congr 1
  funext call
  rw [fieldsOfCall?_eq]
  cases hproduced : setting.produced? seed call with
  | none => rfl
  | some fields => exact get?_filter_isPublic hproduced hvisible

/-- There are merged fields exactly when some call produces a visible one. -/
theorem merged_ne_nil_iff (calls : List TemplateCall) :
    setting.merged seed calls ≠ [] ↔
      ∃ call ∈ calls, ∃ fields, setting.produced? seed call = some fields ∧
        ∃ field ∈ fields, Text.opensWith field.1 "_" = false := by
  constructor
  · intro hne
    obtain ⟨field, hfield⟩ := List.exists_mem_of_ne_nil _ hne
    obtain ⟨made, hmade, hmem⟩ :=
      (exists_call_of_mem_merged hfield).resolve_left List.not_mem_nil
    obtain ⟨call, hcall, hmade⟩ := List.mem_filterMap.mp hmade
    rw [fieldsOfCall?_eq, Option.map_map, Option.map_eq_some_iff] at hmade
    obtain ⟨fields, hfields, rfl⟩ := hmade
    obtain ⟨hmem, hpublic⟩ := List.mem_filter.mp hmem
    rw [isPublic, Bool.and_eq_true, Bool.not_eq_true'] at hpublic
    exact ⟨call, hcall, fields, hfields, field, hmem, hpublic.1⟩
  · rintro ⟨call, hcall, fields, hfields, ⟨name, value⟩, hfield, hvisible⟩ hnil
    have hnone : setting.lastProduced? seed calls name = none := by
      rw [← get?_merged calls hvisible, hnil, Fields.get?_nil]
    rw [lastProduced?, List.findSome?_eq_none_iff] at hnone
    have hunbound := hnone call (List.mem_reverse.mpr hcall)
    rw [hfields, Option.bind_some, (distinct_of_produced? hfields).get?_eq_some_iff.mpr hfield]
      at hunbound
    cases hunbound

/-! ### Fields left open -/

/-- A call leaves a field open: whatever the template writes for the field comes out as null, or as
an unresolved text, unless the field is the display name. -/
def LeavesOpen (setting : Setting) (seed : Variables) (call : TemplateCall) (template : Template)
    (name : String) : Prop :=
  ∀ written ∈ template.overlay,
    setting.limits.resolveName (setting.callScope seed call template) written.1 = name →
      (setting.limits.resolve (setting.callScope seed call template) written.2).isNull = true ∨
        name ≠ "name" ∧
          (setting.limits.resolve (setting.callScope seed call template) written.2).isUnresolved =
            true

instance (call : TemplateCall) (template : Template) (name : String) :
    Decidable (setting.LeavesOpen seed call template name) :=
  inferInstanceAs (Decidable (∀ written ∈ template.overlay, _ → _))

/-- A field that a call leaves open is not among those that it produces. -/
theorem get?_produced_of_leavesOpen {call : TemplateCall} {template : Template} {name : String}
    (htemplate : setting.template? call.template = some template)
    (h : setting.LeavesOpen seed call template name) :
    (setting.produced? seed call).bind (Fields.get? · name) = none := by
  rw [produced?, htemplate, Option.map_some, Option.bind_some, Option.eq_none_iff_forall_not_mem]
  intro value hvalue
  have hmem := Fields.mem_of_get? hvalue
  obtain ⟨hnotNull, hresolved⟩ := Template.keepsField_of_mem_produce hmem
  obtain ⟨written, hwritten, _, heq⟩ := Template.exists_of_mem_produce hmem
  obtain ⟨hname, hmade⟩ := Prod.mk.inj heq
  subst hmade
  rcases h written hwritten hname.symm with hnull | ⟨hother, hunresolved⟩
  · cases hnotNull.symm.trans hnull
  · cases (hresolved hother).symm.trans hunresolved

/-! ### The overlay of an entry -/

/-- The entry with these calls in place of those that it has. -/
def calling (entry : Fields Value) (calls : Value) : Value :=
  .mapping (entry.insert "template" calls)

variable (name : String) (entry : Fields Value)

/-- An entry comes to what the calls make of its variables; these do not depend on the calls. -/
theorem expandEntry?_calling (calls : Value) :
    setting.expandEntry? name (calling entry calls) =
      let listed := TemplateCall.listOf calls
      if setting.merged (setting.seed name entry) listed = [] then none
      else some (.ofTemplates name (setting.merged (setting.seed name entry) listed)
        ((setting.effectiveCalls (setting.seed name entry) listed).map Prod.fst)) := by
  have hseed : setting.seed name (entry.insert "template" calls) = setting.seed name entry := by
    simp [seed, Fields.get?_insert]
  have hfield : (calling entry calls).field? "template" = some calls := by
    simp [calling, Value.field?, Value.mapping?, Fields.get?_insert]
  rw [expandEntry?_of_calls setting name hfield, calling, Value.entries, Value.mapping?,
    Option.getD_some, expandCalls, hseed]
  simp only [List.isEmpty_iff]
  rfl

/-- A visible field of an overlay has the value that the last call producing it gives. -/
theorem bind_get?_expandEntry?_calling (calls : Value) {field : String}
    (hvisible : Text.opensWith field "_" = false) :
    (setting.expandEntry? name (calling entry calls)).bind (·.get? field) =
      setting.lastProduced? (setting.seed name entry) (TemplateCall.listOf calls) field := by
  have hne {hidden : String} (hhidden : Text.opensWith hidden "_" = true) : hidden ≠ field := by
    rintro rfl
    rw [hvisible] at hhidden
    cases hhidden
  have horigin : Overlay.originField ≠ field := hne (by decide)
  have htemplate : Overlay.templateField ≠ field := hne (by decide)
  rw [expandEntry?_calling, ← get?_merged _ hvisible]
  dsimp only
  split
  · rename_i hnil
    rw [hnil]
    rfl
  · rw [Option.bind_some, Overlay.get?, Overlay.ofTemplates, Fields.get?_insert, if_neg htemplate,
      Fields.get?_insert, if_neg horigin]

/-- There is an overlay exactly when some call produces a visible field. -/
theorem isSome_expandEntry?_calling_iff (calls : Value) :
    (setting.expandEntry? name (calling entry calls)).isSome ↔
      ∃ call ∈ TemplateCall.listOf calls, ∃ fields,
        setting.produced? (setting.seed name entry) call = some fields ∧
          ∃ field ∈ fields, Text.opensWith field.1 "_" = false := by
  rw [← merged_ne_nil_iff, expandEntry?_calling]
  dsimp only
  split
  · rename_i hnil
    simp [hnil]
  · rename_i hne
    simp [hne]

/-- An overlay names the templates of the calls that have an effect. -/
theorem templateField_of_expandEntry? {calls : Value} {overlay : Overlay}
    (h : setting.expandEntry? name (calling entry calls) = some overlay) :
    overlay.get? Overlay.templateField = some (.string (Text.joined ", "
      (((TemplateCall.listOf calls).filter setting.isEffective).map TemplateCall.template))) := by
  simp only [expandEntry?_calling, Option.ite_none_left_eq_some, Option.some.injEq] at h
  obtain ⟨_, rfl⟩ := h
  rw [Overlay.get?, Overlay.ofTemplates, Fields.get?_insert, if_pos rfl, map_fst_effectiveCalls]
  rfl

/-- Lists of calls with the same effective items come to the same overlay. -/
theorem expandEntry?_calling_congr {items others : List Value}
    (h : items.filter setting.isEffectiveItem = others.filter setting.isEffectiveItem) :
    setting.expandEntry? name (calling entry (.sequence items)) =
      setting.expandEntry? name (calling entry (.sequence others)) := by
  have heffective : setting.effectiveCalls (setting.seed name entry)
      (TemplateCall.listOf (.sequence items)) =
      setting.effectiveCalls (setting.seed name entry)
        (TemplateCall.listOf (.sequence others)) := by
    rw [effectiveCalls_listOf, h, ← effectiveCalls_listOf]
  have hmerged : setting.merged (setting.seed name entry) (TemplateCall.listOf (.sequence items)) =
      setting.merged (setting.seed name entry) (TemplateCall.listOf (.sequence others)) := by
    rw [merged, merged, heffective]
  rw [expandEntry?_calling, expandEntry?_calling]
  dsimp only
  rw [hmerged, heffective]

/-- An item that is a call comes between the calls before it and those after it. -/
theorem listOf_append_cons {item : Value} {call : TemplateCall}
    (h : TemplateCall.ofValue? item = some call) (front back : List Value) :
    TemplateCall.listOf (.sequence (front ++ item :: back)) =
      TemplateCall.listOf (.sequence front) ++
        ([call] ++ TemplateCall.listOf (.sequence back)) := by
  simp [TemplateCall.listOf, h]

/-- A call that leaves a field open may be left out as far as the field is concerned. -/
theorem bind_get?_expandEntry?_of_leavesOpen {front back : List Value} {item : Value}
    {call : TemplateCall} {template : Template} {field : String}
    (hcall : TemplateCall.ofValue? item = some call)
    (htemplate : setting.template? call.template = some template)
    (hvisible : Text.opensWith field "_" = false)
    (hopen : setting.LeavesOpen (setting.seed name entry) call template field) :
    (setting.expandEntry? name (calling entry (.sequence (front ++ item :: back)))).bind
        (·.get? field) =
      (setting.expandEntry? name (calling entry (.sequence (front ++ back)))).bind
        (·.get? field) := by
  have hnone : setting.lastProduced? (setting.seed name entry) [call] field = none := by
    simpa [lastProduced?] using get?_produced_of_leavesOpen htemplate hopen
  have hothers : TemplateCall.listOf (.sequence (front ++ back)) =
      TemplateCall.listOf (.sequence front) ++ TemplateCall.listOf (.sequence back) := by
    simp [TemplateCall.listOf]
  rw [bind_get?_expandEntry?_calling name entry _ hvisible,
    bind_get?_expandEntry?_calling name entry _ hvisible, listOf_append_cons hcall, hothers,
    lastProduced?_append, lastProduced?_append, lastProduced?_append, hnone, Option.or_none]

variable (setting)

/-- What calls come to together. A visible field has the value that the last call producing it
gives, the overlay names the templates of the calls that have an effect, and there is an overlay
exactly when one of the calls produces a visible field. Items that have no effect may be left out of
a list or put into it, and a call that leaves a field open may be left out as far as the field is
concerned. -/
theorem expandEntry?_composed :
    let outcome (calls : Value) : Option Overlay :=
      setting.expandEntry? name (calling entry calls)
    let seed := setting.seed name entry
    (∀ calls,
      ((outcome calls).isSome ↔
        ∃ call ∈ TemplateCall.listOf calls, ∃ fields, setting.produced? seed call = some fields ∧
          ∃ field ∈ fields, Text.opensWith field.1 "_" = false) ∧
      ∀ overlay, outcome calls = some overlay →
        (∀ field, Text.opensWith field "_" = false →
          overlay.get? field = setting.lastProduced? seed (TemplateCall.listOf calls) field) ∧
        overlay.get? Overlay.templateField = some (.string (Text.joined ", "
          (((TemplateCall.listOf calls).filter setting.isEffective).map
            TemplateCall.template)))) ∧
    (∀ items others : List Value,
      items.filter setting.isEffectiveItem = others.filter setting.isEffectiveItem →
        outcome (.sequence items) = outcome (.sequence others)) ∧
    ∀ front item back call template field, TemplateCall.ofValue? item = some call →
      setting.template? call.template = some template →
      Text.opensWith field "_" = false → setting.LeavesOpen seed call template field →
        (outcome (.sequence (front ++ item :: back))).bind (·.get? field) =
          (outcome (.sequence (front ++ back))).bind (·.get? field) := by
  intro outcome seed
  refine ⟨fun calls => ⟨isSome_expandEntry?_calling_iff name entry calls,
      fun overlay hoverlay => ⟨fun field hvisible => ?_,
        templateField_of_expandEntry? name entry hoverlay⟩⟩,
    fun items others hsame => expandEntry?_calling_congr name entry hsame,
    fun front item back call template field hcall htemplate hvisible hopen =>
      bind_get?_expandEntry?_of_leavesOpen name entry hcall htemplate hvisible hopen⟩
  rw [← bind_get?_expandEntry?_calling name entry calls hvisible]
  exact (congrArg (Option.bind · (·.get? field)) hoverlay).symm

/-- Two badges are called, the second one without a value for the color. Beside them stand a number,
a template that does not exist and one that is no mapping. -/
theorem expandEntry?_composed_badge :
    let first : Value := .mapping [("overlay", .mapping [("name", .string "<<key>>"),
      ("color", .string "red")])]
    let second : Value := .mapping [("overlay", .mapping [("color", .string "<<tint>>"),
      ("size", .int 10), ("name", .string "<<title>>")])]
    let setting : Setting := ⟨.standard,
      [("first", first), ("second", second), ("broken", .int 0)], [], []⟩
    let call : Value := .mapping [("name", .string "second")]
    let outcome (calls : Value) : Option Overlay :=
      setting.expandEntry? "movie-hd" (calling [] calls)
    let items : List Value :=
      [.int 3, .string "first", .string "missing", call, .string "broken"]
    ∃ overlay, outcome (.sequence items) = some overlay ∧
      (overlay.get? "color").map Value.text = some "red" ∧
      (overlay.get? "name").map Value.text = some "<<title>>" ∧
      overlay.get? Overlay.templateField = some (.string "first, second") ∧
      outcome (.sequence [.string "first", call]) = some overlay ∧
      ((outcome (.sequence [.string "first"])).bind (·.get? "color")).map Value.text =
        some "red" := by
  intro first second setting call outcome items
  obtain ⟨hcalls, hitems, hopen⟩ := expandEntry?_composed setting "movie-hd" []
  have hmade : (outcome (.sequence items)).isSome = true := by decide +kernel
  obtain ⟨overlay, hoverlay⟩ := Option.isSome_iff_exists.mp hmade
  obtain ⟨hfields, htemplates⟩ := (hcalls (.sequence items)).2 overlay hoverlay
  have hcolor : overlay.get? "color" = _ := hfields "color" (by decide)
  have hname : overlay.get? "name" = _ := hfields "name" (by decide)
  have hsame : outcome (.sequence items) = outcome (.sequence [.string "first", call]) :=
    hitems items [.string "first", call] rfl
  let written : Fields Value := [("color", .string "<<tint>>"), ("size", .int 10),
    ("name", .string "<<title>>")]
  have hdropped : (outcome (.sequence ([.string "first"] ++ call :: []))).bind (·.get? "color") =
      (outcome (.sequence ([.string "first"] ++ []))).bind (·.get? "color") :=
    hopen [.string "first"] call [] ⟨"second", []⟩ ⟨[], [], written⟩ "color" rfl rfl (by decide)
      (by decide +kernel)
  refine ⟨overlay, hoverlay, ?_, ?_, htemplates.trans rfl, hsame ▸ hoverlay, ?_⟩
  · rw [hcolor]
    decide +kernel
  · rw [hname]
    decide +kernel
  · rw [← List.append_nil [Value.string "first"], ← hdropped]
    decide +kernel

end Setting

end PosterOverlay
