import PosterOverlay.Document.Basic
import PosterOverlay.Document.Shorthand
import PosterOverlay.Overlay
import PosterOverlay.Template.Call
import PosterOverlay.Template.Environment

/-!
# Expanding a document

Each entry of a document is expanded on its own. An entry with a `template` field is made by
calling templates one after another, a later call overriding the fields of an earlier one; an
entry with only an `overlay` block has its placeholders resolved and nothing else done to it. An
entry that comes to nothing is left out.
-/

namespace PosterOverlay

/-- What all entries of a document share. -/
structure Setting where
  /-- The bounds of the expansion. -/
  limits : Limits
  /-- The templates that can be called. -/
  templates : Fields Value
  /-- Conditionals beneath those of every template. -/
  fallback : Conditionals
  /-- The variables of the user and of the document. -/
  scope : Variables

/-- The text after the last dash of an overlay's name, which is its key. -/
def keyOfName (name : String) : String :=
  String.ofList (name.toList.reverse.takeWhile (· != '-')).reverse

namespace Setting

/-- The setting in which a document is expanded, given the templates of its library. -/
def ofDocument (limits : Limits) (document : Document) (library : Fields Value)
    (user : Variables) : Setting :=
  let scope := user.expandShorthand limits.ratings
  match document.external? with
  | none => ⟨limits, Fields.ofList document.templates, [], scope⟩
  | some external =>
    ⟨limits, (Fields.ofList library).extend document.templates, external.conditionals,
      Fields.extendNew scope external.bindings⟩

/-- The variables of an entry: its own over those of the setting, and the key beneath them. -/
def seed (setting : Setting) (name : String) (entry : Fields Value) : Variables :=
  let block (title : String) : Variables := ((entry.get? title).bind Value.mapping?).getD []
  Fields.insertNew "key" (.string (keyOfName name))
    (((Fields.extend setting.scope (block "variables"))).extend (block "template_variables"))

/-- The template of that name with the conditionals of the setting beneath its own. -/
def template? (setting : Setting) (name : String) : Option Template :=
  ((setting.templates.get? name).bind Template.ofValue?).map (·.withFallback setting.fallback)

/-- The variables that a call hands to its template. -/
def arguments (seed : Variables) (call : TemplateCall) : Variables :=
  Fields.extend seed call.overrides

/-- Whether a field made by a template reaches the overlay. -/
def isPublic (entry : String × Value) : Bool :=
  !Text.opensWith entry.1 "_" && !entry.2.isNull

/-- The fields that one call contributes, when its template exists. -/
def fieldsOfCall? (setting : Setting) (seed : Variables) (call : TemplateCall) :
    Option (Fields Value) :=
  (setting.template? call.template).map fun template =>
    let scope := arguments seed call
    let key := ((scope.get? "key").map Value.text).getD ""
    (template.produce setting.limits scope key).filter isPublic

/-- The calls whose template exists, with the fields that they contribute. -/
def effectiveCalls (setting : Setting) (seed : Variables) (calls : List TemplateCall) :
    List (String × Fields Value) :=
  calls.filterMap fun call =>
    (setting.fieldsOfCall? seed call).map fun fields => (call.template, fields)

/-- The overlay of an entry made by calling templates; none when no call contributes a field. -/
def expandCalls (setting : Setting) (name : String) (entry : Fields Value) (calls : Value) :
    Option Overlay :=
  let effective := setting.effectiveCalls (setting.seed name entry) (TemplateCall.listOf calls)
  let merged := effective.foldl (fun acc call => Fields.extend acc call.2) []
  if merged.isEmpty then none
  else some (.ofTemplates name merged (effective.map Prod.fst))

/-- The overlay of an entry written out directly. -/
def expandDirect (setting : Setting) (name : String) (fields : Fields Value) : Overlay :=
  .direct name (Fields.ofList
    ((setting.limits.resolveFields setting.scope fields).filter fun entry => !entry.2.isNull))

/-- The overlay of an entry. -/
def expandEntry? (setting : Setting) (name : String) (entry : Value) : Option Overlay :=
  entry.mapping?.bind fun fields =>
    match fields.get? "template" with
    | some calls => setting.expandCalls name fields calls
    | none =>
      match fields.get? "overlay" with
      | some (.mapping direct) => some (setting.expandDirect name direct)
      | _ => none

end Setting

namespace Document

/-- The overlays of a document, given the templates of its library and the user's variables. -/
def expand (document : Document) (limits : Limits) (library : Fields Value) (user : Variables) :
    List Overlay :=
  let setting := Setting.ofDocument limits document library user
  document.overlays.filterMap fun entry => setting.expandEntry? entry.1 entry.2

end Document

end PosterOverlay
