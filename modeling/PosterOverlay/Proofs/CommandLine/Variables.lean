import PosterOverlay.CommandLine.Variables
import PosterOverlay.Proofs.Json.Outcome
import PosterOverlay.Proofs.Text.Splitting

/-!
# The variables that the user gives

A text assigns a value if there is more than blanks before its first equals sign. All texts
together with the object either give all variables, or they come to one failure: that of the
object, or else that of the first text that assigns nothing.
-/

namespace PosterOverlay

/-- Whether the value is a truth value or a number. -/
def Value.isFlagOrNumber : Value → Bool
  | bool _ => true
  | int _ => true
  | float _ => true
  | _ => false

namespace CommandLine

/-- The text before the first equals sign. -/
def nameText (text : String) : String :=
  String.ofList (text.toList.takeWhile (· != '='))

/-- The text behind the first equals sign, with all further ones. -/
def valueText (text : String) : String :=
  String.ofList (text.toList.dropWhile (· != '=')).tail

/-- Before an equals sign there is more than blanks. -/
def IsAssignment (text : String) : Prop :=
  '=' ∈ text.toList ∧ Text.isAllBlank (nameText text) = false

instance (text : String) : Decidable (IsAssignment text) :=
  inferInstanceAs (Decidable (_ ∧ _))

/-- The name that a text assigns to. -/
def assignedName (text : String) : String :=
  Text.trim (nameText text)

/-- The value that a text assigns: the truth value or the number that YAML reads, and otherwise the
text as it stands. -/
def assignedValue (text : String) : Value :=
  ((Yaml.read? (valueText text)).filter Value.isFlagOrNumber).getD (.string (valueText text))

/-- What is wrong with a text that assigns nothing. -/
def assignmentFault (text : String) : Failure :=
  .invalidVariable text (if '=' ∈ text.toList then "empty variable name" else "missing '='")

/-- The text is a JSON object. -/
def IsObject (text : String) : Prop :=
  ∃ fields, Json.read? text = some (.mapping fields)

/-- Whether a text is a JSON object can be computed. -/
theorem isObject_iff {text : String} :
    IsObject text ↔ ((Json.read? text).bind Value.mapping?).isSome = true := by
  rw [IsObject]
  cases Json.read? text with
  | none => simp
  | some value => cases value <;> simp [Value.mapping?]

instance (text : String) : Decidable (IsObject text) :=
  decidable_of_iff _ isObject_iff.symm

/-- What is wrong with a text that is no JSON object. -/
def objectFault (text : String) : Failure :=
  if (Json.read? text).isSome then .invalidVariable text "--vars must be a JSON object"
  else .malformedJson

/-- Only truth values and numbers keep the type that they have in YAML. -/
theorem typedValue_eq (text : String) :
    typedValue text =
      ((Yaml.read? text).filter Value.isFlagOrNumber).getD (.string text) := by
  rw [typedValue]
  cases hread : Yaml.read? text with
  | none => rfl
  | some value => cases value <;> rfl

/-- A text is split at its first equals sign. -/
theorem splitOnce?_equalsSign (text : String) :
    Text.splitOnce? ['='] text.toList =
      if '=' ∈ text.toList then some ((nameText text).toList, (valueText text).toList)
      else none := by
  rw [Text.splitOnce?_singleton, nameText, valueText, String.toList_ofList, String.toList_ofList]

/-- A text gives its assignment or its fault. -/
theorem assignment_eq (text : String) :
    assignment text = if IsAssignment text then .ok (assignedName text, assignedValue text)
      else .error (assignmentFault text) := by
  rw [assignment, splitOnce?_equalsSign]
  by_cases hsign : '=' ∈ text.toList
  · have hblank : (Text.trimChars (nameText text).toList).isEmpty =
        Text.isAllBlank (nameText text) := by
      rw [Bool.eq_iff_iff, List.isEmpty_iff, Text.trimChars_eq_nil_iff, Text.isAllBlank]
    rw [if_pos hsign]
    dsimp only
    rw [hblank, typedValue_eq, String.ofList_toList]
    cases hname : Text.isAllBlank (nameText text) with
    | true => simp [IsAssignment, assignmentFault, hsign, hname]
    | false => exact (if_pos ⟨hsign, hname⟩).symm
  · simp [hsign, IsAssignment, assignmentFault]

/-- Texts give all assignments, or the fault of the first that assigns nothing. -/
theorem assignments_eq (texts : List String) :
    assignments texts = match texts.find? fun text => ¬ IsAssignment text with
      | some text => .error (assignmentFault text)
      | none => .ok (texts.map fun text => (assignedName text, assignedValue text)) := by
  induction texts with
  | nil => rfl
  | cons text texts ih =>
    rw [assignments, assignment_eq]
    by_cases htext : IsAssignment text
    · rw [if_pos htext, List.find?_cons_of_neg (by simpa using htext)]
      dsimp only
      rw [ih]
      cases texts.find? fun text => ¬ IsAssignment text <;> rfl
    · rw [if_neg htext, List.find?_cons_of_pos (by simpa using htext)]

/-- The variables of the object; none when it is not given. -/
def objectEntries (object? : Option String) : Variables :=
  ((object?.bind Json.read?).map Value.entries).getD []

/-- No variable of the object is given twice. -/
theorem distinct_objectEntries (object? : Option String) : (objectEntries object?).Distinct := by
  unfold objectEntries
  cases hread : object?.bind Json.read? with
  | none => exact Fields.distinct_nil
  | some value =>
    obtain ⟨text, _, hvalue⟩ := Option.bind_eq_some_iff.mp hread
    exact (Json.distinct_of_read? hvalue).entries

section

variable {object? : Option String}

/-- The failure of the object comes before all others. -/
theorem collectVariables_of_not_isObject {text : String} (htext : text ∈ object?)
    (h : ¬ IsObject text) (texts : List String) :
    collectVariables object? texts = .error (objectFault text) := by
  have hfault : objectVariables text = .error (objectFault text) := by
    rw [objectVariables, objectFault]
    cases hread : Json.read? text with
    | none => rfl
    | some value =>
      cases value with
      | mapping fields => exact absurd ⟨fields, hread⟩ h
      | _ => rfl
  rw [Option.mem_def.mp htext, collectVariables, Option.map_some, Option.getD_some, hfault]

/-- Where the object is one, its variables are followed by those that the texts assign. -/
theorem collectVariables_of_isObject (h : ∀ text ∈ object?, IsObject text) (texts : List String) :
    collectVariables object? texts =
      match texts.find? fun text => ¬ IsAssignment text with
      | some text => .error (assignmentFault text)
      | none => .ok ((objectEntries object?).extend
          (texts.map fun text => (assignedName text, assignedValue text))) := by
  have hobject : (object?.map objectVariables).getD (.ok []) = .ok (objectEntries object?) := by
    cases object? with
    | none => rfl
    | some text =>
      obtain ⟨fields, hread⟩ := h text rfl
      simp [objectVariables, objectEntries, hread, Value.entries, Value.mapping?]
  rw [collectVariables, hobject, assignments_eq]
  cases texts.find? fun text => ¬ IsAssignment text <;> rfl

/-- All variables are given exactly if the object, where there is one, reads as an object and every
text assigns something. -/
theorem collectVariables_eq_ok_iff {texts : List String} {scope : Variables} :
    collectVariables object? texts = .ok scope ↔
      ((∀ text ∈ object?, IsObject text) ∧ ∀ text ∈ texts, IsAssignment text) ∧
        (objectEntries object?).extend
          (texts.map fun text => (assignedName text, assignedValue text)) = scope := by
  have hall : (texts.find? fun text => ¬ IsAssignment text) = none ↔
      ∀ text ∈ texts, IsAssignment text := by
    simp
  by_cases hobject : ∀ text ∈ object?, IsObject text
  · rw [collectVariables_of_isObject hobject, ← hall, and_iff_right hobject]
    cases texts.find? fun text => ¬ IsAssignment text <;> simp
  · have hfault : ∃ text ∈ object?, ¬ IsObject text := by
      simpa only [not_forall, exists_prop] using hobject
    obtain ⟨text, htext, hnone⟩ := hfault
    rw [collectVariables_of_not_isObject htext hnone]
    exact ⟨fun h => (by cases h), fun h => absurd h.1.1 hobject⟩

end

/-- All variables are given exactly if the object, where there is one, reads as an object and every
text assigns something. Otherwise the fault of the object is reported, or else that of the first
text that assigns nothing. The variables come in the order of the object, and new ones behind them
in the order in which they are assigned first; each has the value that was assigned last, or else
the one in the object. -/
theorem collectVariables_outcome (object? : Option String) (texts : List String) :
    ((∃ scope, collectVariables object? texts = .ok scope) ↔
      (∀ text ∈ object?, IsObject text) ∧ ∀ text ∈ texts, IsAssignment text) ∧
    (∀ text ∈ object?, ¬ IsObject text →
      collectVariables object? texts = .error (objectFault text)) ∧
    ((∀ text ∈ object?, IsObject text) →
      ∀ text ∈ texts.find? fun text => ¬ IsAssignment text,
        collectVariables object? texts = .error (assignmentFault text)) ∧
    ∀ scope, collectVariables object? texts = .ok scope →
      let object := objectEntries object?
      scope.Distinct ∧
        scope.names = object.names ++
          ((texts.map assignedName).filter fun name => name ∉ object.names).eraseDups ∧
        ∀ name, scope.get? name =
          ((texts.reverse.find? fun text => assignedName text = name).map assignedValue).or
            (object.get? name) := by
  refine ⟨?_, fun text htext hnone => ?_, fun hobject text htext => ?_, ?_⟩
  · simp only [collectVariables_eq_ok_iff, exists_and_left, exists_eq', and_true]
  · exact collectVariables_of_not_isObject htext hnone texts
  · rw [collectVariables_of_isObject hobject, Option.mem_def.mp htext]
  · intro scope hscope object
    obtain ⟨_, rfl⟩ := collectVariables_eq_ok_iff.mp hscope
    have hnames : Fields.names (texts.map fun text => (assignedName text, assignedValue text)) =
        texts.map assignedName := by
      rw [Fields.names, List.map_map]
      rfl
    refine ⟨(distinct_objectEntries object?).extend _, ?_, fun name => ?_⟩
    · rw [Fields.names_extend, hnames]
    · rw [Fields.get?_extend, ← List.map_reverse, Fields.get?_map_eq_find?]

/-- Blanks around names do not matter, and those in texts do. -/
theorem collectVariables_outcome_spaced :
    let object := "\x7b\"size\": 1, \"dark\": \"no\"\x7d"
    let texts := ["note=a=b ", " dark = true", "dark=off", "note = : ["]
    (∃ scope, collectVariables (some object) texts = .ok scope ∧
      scope.Distinct ∧ scope.names = ["size", "dark", "note"] ∧
      (scope.get? "size").bind Value.number? = some 1 ∧
      (scope.get? "dark").bind Value.string? = some "off" ∧
      (scope.get? "note").bind Value.string? = some " : [") ∧
    collectVariables (some "[1, 2]") ["dark"] =
      .error (.invalidVariable "[1, 2]" "--vars must be a JSON object") ∧
    collectVariables none ["dark=1", " =2", "dark"] =
      .error (.invalidVariable " =2" "empty variable name") := by
  intro object texts
  have hobject : ∀ text ∈ some object, IsObject text := by decide +kernel
  have htexts : ∀ text ∈ texts, IsAssignment text := by decide +kernel
  obtain ⟨hok, _, _, hgiven⟩ := collectVariables_outcome (some object) texts
  obtain ⟨scope, hscope⟩ := hok.mpr ⟨hobject, htexts⟩
  obtain ⟨hdistinct, hnames, hget⟩ := hgiven scope hscope
  refine ⟨⟨scope, hscope, hdistinct, ?_, ?_, ?_, ?_⟩, ?_, ?_⟩
  · rw [hnames]
    decide +kernel
  · rw [hget]
    decide +kernel
  · rw [hget]
    decide +kernel
  · rw [hget]
    decide +kernel
  · have hnone : ¬ IsObject "[1, 2]" := by decide +kernel
    exact (collectVariables_outcome (some "[1, 2]") ["dark"]).2.1 _ rfl hnone
  · have hfirst : (["dark=1", " =2", "dark"].find? fun text => ¬ IsAssignment text) =
        some " =2" := by
      decide +kernel
    exact (collectVariables_outcome none ["dark=1", " =2", "dark"]).2.2.1 (by simp) _ hfirst

end CommandLine

end PosterOverlay
