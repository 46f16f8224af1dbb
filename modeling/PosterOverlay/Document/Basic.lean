import PosterOverlay.Template.Definition

/-!
# Overlay documents

An overlay document declares overlays by name, templates of its own, and perhaps a library of
templates outside, together with variables and conditionals for them.
-/

namespace PosterOverlay

/-- What a document says about a library of templates outside. -/
structure External where
  /-- The library. -/
  source : String
  /-- Variables for all entries, beneath those of the user. -/
  bindings : Variables
  /-- Conditionals beneath those of every template. -/
  conditionals : Conditionals

/-- A document of overlays. -/
structure Document where
  /-- The library outside, if the document names one. -/
  external? : Option External
  /-- The templates written in the document. -/
  templates : Fields Value
  /-- The declared overlays, if there are any. -/
  overlays : Fields Value

namespace External

/-- The library that is meant when a document names none. -/
def defaultSource : String := "templates"

/-- Whether an entry of the variables is a mapping under the given name. -/
def isBlock (block : String) (entry : String × Value) : Bool :=
  entry.1 == block && entry.2.mapping?.isSome

/-- The variables written in a block: those given plainly, and beneath them those of the mapping
`default`. A mapping `conditionals` is no variable. -/
def variablesOf (block : Fields Value) : Variables :=
  let plain := block.filter fun entry =>
    !isBlock "default" entry && !isBlock "conditionals" entry
  Fields.extendNew (Fields.ofList plain)
    (((Fields.get? block "default").bind Value.mapping?).getD [])

/-- The conditionals written in a block under `conditionals`. -/
def conditionalsOf (block : Fields Value) : Conditionals :=
  .ofFields (((Fields.get? block "conditionals").bind Value.mapping?).getD [])

/-- What the mapping under `external_templates` says. -/
def ofFields (fields : Fields Value) : External :=
  let block := ((fields.get? "template_variables").bind Value.mapping?).getD []
  ⟨((fields.get? "default").bind Value.string?).getD defaultSource,
    variablesOf block, conditionalsOf block⟩

end External

namespace Document

/-- The document that a value describes. A value that is no mapping declares nothing. -/
def ofValue (value : Value) : Document where
  external? := (value.section? "external_templates").map External.ofFields
  templates := (value.section? "templates").getD []
  overlays := (value.section? "overlays").getD []

/-- The names of the declared overlays. -/
def keys (document : Document) : List String :=
  document.overlays.names

end Document

end PosterOverlay
