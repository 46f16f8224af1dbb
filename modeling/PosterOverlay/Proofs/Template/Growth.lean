import PosterOverlay.Proofs.Placeholder.Growth
import PosterOverlay.Proofs.Template.Invariant
import PosterOverlay.Proofs.Value.Texts

/-!
# How far the texts of a template call grow

Variables may refer to each other in circles, and every pass over them may splice one into another.
Still no text that a template call makes is longer than the longest text that it starts from, or
than the length bound if this is larger.
-/

namespace PosterOverlay

/-- No text inside the value has more bytes than the bound, and the names inside it are among those
given. -/
structure Value.FitsIn (bound : Nat) (names : List String) (value : Value) : Prop where
  /-- Every text is within the bound. -/
  size_le : ∀ text ∈ value.texts, text.utf8ByteSize ≤ bound
  /-- Every name is one of those given. -/
  mem_names : ∀ name ∈ value.innerNames, name ∈ names

/-- A text fits when its bytes do. -/
theorem Value.FitsIn.of_size_le {bound : Nat} {text : String} (h : text.utf8ByteSize ≤ bound)
    (names : List String) : FitsIn bound names (.string text) where
  size_le := by simpa [texts] using h
  mem_names := by simp [innerNames]

/-- A text that fits is resolved to a value that fits, provided that the variables fit and the
bound is no smaller than the length bound. -/
theorem Limits.fitsIn_resolveText {limits : Limits} {scope : Variables} {bound : Nat}
    {names : List String} (hbound : limits.length ≤ bound)
    (hscope : scope.All (Value.FitsIn bound names)) {text : String}
    (htext : text.utf8ByteSize ≤ bound) :
    (limits.resolveText scope text).FitsIn bound names := by
  refine Placeholder.scanUpTo_induction (fun name value hvalue => ?_) (fun text htext => ?_) _
    (.of_size_le htext names)
  · exact hscope _ (Fields.mem_of_get? (Variables.get?_of_visible? hvalue))
  · have hold : text.utf8ByteSize ≤ bound := htext.size_le text (by simp [Value.texts])
    have hsplice := Placeholder.size_splice_le scope (limits.length - text.utf8ByteSize) text
    exact .of_size_le (by omega) names

/-- Resolving keeps values within a bound that is no smaller than the length bound. -/
theorem Limits.keeps_fitsIn {limits : Limits} {bound : Nat} (hbound : limits.length ≤ bound)
    (names : List String) : limits.Keeps (Value.FitsIn bound names) := by
  intro scope value hscope hvalue
  have htext (text : String) (htext : text ∈ value.texts) :
      (limits.resolveText scope text).FitsIn bound names :=
    fitsIn_resolveText hbound hscope (hvalue.size_le text htext)
  constructor
  · intro made hmade
    rw [texts_resolve, List.mem_flatMap] at hmade
    obtain ⟨text, hmem, hmade⟩ := hmade
    exact (htext text hmem).size_le made hmade
  · intro name hname
    rcases mem_innerNames_resolve limits scope hname with hold | ⟨text, hmem, hname⟩
    · exact hvalue.mem_names name hold
    · exact (htext text hmem).mem_names name hname

namespace Template

/-- The values that a call of the template starts from: the caller's variables, the key, and what
the template says. -/
def sources (template : Template) (arguments : Variables) (key : String) : List Value :=
  .string key :: arguments.map Prod.snd ++ template.defaults.map Prod.snd ++
    template.overlay.map Prod.snd ++
    template.conditionals.flatMap fun entry => entry.2.values

/-- The bytes of the longest text inside the values, or the length bound if this is larger. -/
def textBound (limits : Limits) (values : List Value) : Nat :=
  ((values.flatMap Value.texts).map String.utf8ByteSize).foldr max limits.length

/-- The bound is the least one above the length bound and all texts. -/
theorem textBound_le_iff {limits : Limits} {values : List Value} {bound : Nat} :
    textBound limits values ≤ bound ↔
      limits.length ≤ bound ∧
        ∀ value ∈ values, ∀ text ∈ value.texts, text.utf8ByteSize ≤ bound := by
  rw [textBound, foldr_max_le_iff, List.forall_mem_map, List.forall_mem_flatMap]

/-- When everything that a call starts from has a property that resolving keeps, all its variables
and all fields that it produces have it. -/
theorem all_results {template : Template} {limits : Limits} {arguments : Variables} {key : String}
    {property : Value → Prop} (hkeeps : limits.Keeps property)
    (hsources : ∀ source ∈ template.sources arguments key, property source) :
    Variables.All property (template.environment limits arguments key) ∧
      Variables.All property (template.produce limits arguments key) := by
  simp only [sources, List.forall_mem_append, List.forall_mem_cons, List.forall_mem_map,
    List.forall_mem_flatMap] at hsources
  obtain ⟨⟨⟨⟨hkey, harguments⟩, hdefaults⟩, hoverlay⟩, hconditionals⟩ := hsources
  have hinitial := all_initial hkeeps harguments hkey hdefaults
  have henvironment : Variables.All property (template.environment limits arguments key) :=
    all_environment hkeeps harguments hkey hdefaults (hinitial.evaluate hkeeps hconditionals)
  refine ⟨henvironment, fun field hfield => ?_⟩
  obtain ⟨written, hwritten, _, rfl⟩ := exists_of_mem_produce hfield
  exact hkeeps _ _ henvironment (hoverlay written hwritten)

/-- The texts that a template call makes are no longer than the longest one that it starts from, or
than the length bound if this is larger, and mappings inside the results have no other names than
those inside the values at the start. So if the length bound holds of all texts at the start, it
holds of all texts in the end, whatever the variables say about each other. -/
theorem texts_bounded (template : Template) (limits : Limits) (arguments : Variables)
    (key : String) :
    let sources := template.sources arguments key
    let results := (template.environment limits arguments key).map Prod.snd ++
      (template.produce limits arguments key).map Prod.snd
    (∀ value ∈ results, ∀ text ∈ value.texts,
      text.utf8ByteSize ≤ textBound limits sources) ∧
    (∀ value ∈ results, ∀ name ∈ value.innerNames,
      ∃ source ∈ sources, name ∈ source.innerNames) ∧
    ((∀ source ∈ sources, ∀ text ∈ source.texts, text.utf8ByteSize ≤ limits.length) →
      ∀ value ∈ results, ∀ text ∈ value.texts, text.utf8ByteSize ≤ limits.length) := by
  intro sources results
  let bound := textBound limits sources
  let names := sources.flatMap Value.innerNames
  obtain ⟨hlength, hsizes⟩ := textBound_le_iff.mp (Nat.le_refl bound)
  have hsources (source : Value) (hsource : source ∈ sources) : source.FitsIn bound names :=
    ⟨hsizes source hsource, fun name hname => List.mem_flatMap_of_mem hsource hname⟩
  have hresults : ∀ value ∈ results, value.FitsIn bound names := by
    obtain ⟨henvironment, hproduce⟩ := all_results (Limits.keeps_fitsIn hlength names) hsources
    exact List.forall_mem_append.mpr
      ⟨List.forall_mem_map.mpr henvironment, List.forall_mem_map.mpr hproduce⟩
  refine ⟨fun value hvalue => (hresults value hvalue).size_le, fun value hvalue name hname => ?_,
    fun hfit value hvalue text htext => ?_⟩
  · exact List.mem_flatMap.mp ((hresults value hvalue).mem_names name hname)
  · have hbound : bound ≤ limits.length := textBound_le_iff.mpr ⟨Nat.le_refl _, hfit⟩
    exact Nat.le_trans ((hresults value hvalue).size_le text htext) hbound

/-- Two variables of a caller double each other; the name of the overlay grows until the length
bound keeps a placeholder from being spliced. -/
theorem texts_bounded_circle :
    let template : Template := ⟨[], [], [("name", .string "[<<x>>]")]⟩
    let arguments : Variables := [("x", .string "<<y>>,<<y>>"), ("y", .string "<<x>>;<<x>>")]
    let limits : Limits := ⟨9, 0, 0, 24⟩
    let fields := template.produce limits arguments "k"
    (Fields.get? fields "name").map Value.text = some "[<<x>>;<<x>>,<<y>>]" ∧
      ∀ text ∈ fields.flatMap fun field => field.2.texts, text.utf8ByteSize ≤ 24 := by
  intro template arguments limits fields
  have hfit : ∀ source ∈ template.sources arguments "k", ∀ text ∈ source.texts,
      text.utf8ByteSize ≤ limits.length := by
    decide
  obtain ⟨_, _, hbounded⟩ := texts_bounded template limits arguments "k"
  refine ⟨by decide +kernel, List.forall_mem_flatMap.mpr fun field hfield => ?_⟩
  exact hbounded hfit field.2 (List.mem_append_right _ (List.mem_map_of_mem hfield))

end Template

end PosterOverlay
