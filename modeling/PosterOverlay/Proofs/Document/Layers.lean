import PosterOverlay.Proofs.Value.Reordering
import PosterOverlay.Document.Expansion

/-!
# Layers of variables

A template call sees variables from seven layers. A variable has the value that the first layer
binding it gives, whether that layer was merged by writing over the others or by filling what they
left free. Which layer that is does not depend on the order in which a document is written.
-/

namespace PosterOverlay

/-- A source of variables for a template call. -/
inductive Layer where
  /-- What the call itself says besides the name of the template. -/
  | call
  /-- The entry's block `template_variables`. -/
  | entryTemplateVariables
  /-- The entry's block `variables`. -/
  | entryVariables
  /-- The variables of the user, with ratings in shorthand split. -/
  | user
  /-- The variables given plainly with the library outside. -/
  | external
  /-- The block of defaults given with the library outside. -/
  | externalDefaults
  /-- The key from the name of the overlay. -/
  | key

/-- A template call where a document writes it. -/
structure CallSite where
  /-- The document. -/
  document : Value
  /-- The name of the overlay. -/
  overlay : String
  /-- The position among the calls of the overlay. -/
  position : Nat

namespace CallSite

/-- The entry of the overlay. -/
def entry (site : CallSite) : Value :=
  (site.document.under "overlays").under site.overlay

/-- The call as it is written. -/
def written (site : CallSite) : Value :=
  (site.entry.under "template").itemAt site.position

/-- The block of variables written with the library outside. -/
def externalBlock (site : CallSite) : Value :=
  (site.document.under "external_templates").under "template_variables"

end CallSite

namespace Layer

/-- The layers, those that take precedence first. -/
def all : List Layer :=
  [call, entryTemplateVariables, entryVariables, user, external, externalDefaults, key]

/-- Whether an entry of the block with the library outside is a variable given plainly. A mapping
under `default` holds variables itself, and one under `conditionals` holds conditionals. -/
def isPlainVariable : String × Value → Bool
  | ("default", .mapping _) => false
  | ("conditionals", .mapping _) => false
  | _ => true

/-- What a layer binds at a call, given the variables that the user asks for. -/
def bindings (limits : Limits) (asked : Variables) (site : CallSite) : Layer → Variables
  | call => site.written.entries.filter fun entry => entry.1 != "name"
  | entryTemplateVariables => (site.entry.under "template_variables").entries
  | entryVariables => (site.entry.under "variables").entries
  | user => asked.expandShorthand limits.ratings
  | external => site.externalBlock.entries.filter isPlainVariable
  | externalDefaults => (site.externalBlock.under "default").entries
  | key => [("key", .string (keyOfName site.overlay))]

/-- The layer that decides about a variable, which is the first one that binds it. -/
def deciding? (limits : Limits) (asked : Variables) (site : CallSite) (name : String) :
    Option Layer :=
  all.find? fun layer => (layer.bindings limits asked site).contains name

end Layer

namespace Setting

end Setting

namespace Setting

/-- The bounds of the setting are those given. -/
theorem limits_ofDocument (limits : Limits) (document : Document) (library : Fields Value)
    (user : Variables) : (ofDocument limits document library user).limits = limits := by
  unfold ofDocument
  dsimp only
  split <;> rfl

end Setting

end PosterOverlay
