import PosterOverlay.Failure
import PosterOverlay.Json.Reading
import PosterOverlay.Text.Blank
import PosterOverlay.Text.Separator
import PosterOverlay.Yaml.Reading

/-!
# Variables on the command line

The user gives variables as one JSON object, and one by one in the form `name=value`. The latter
win, and of several for one name the last one. A value that reads as a truth value or a number in
YAML is one; any other value is a text, taken as it stands.
-/

namespace PosterOverlay.CommandLine

/-- The variables of a JSON object. -/
def objectVariables (text : String) : Except Failure Variables :=
  match Json.read? text with
  | some (.mapping fields) => .ok fields
  | some _ => .error (.invalidVariable text "--vars must be a JSON object")
  | none => .error .malformedJson

/-- The value that a text on the command line stands for. -/
def typedValue (text : String) : Value :=
  match Yaml.read? text with
  | some (.bool b) => .bool b
  | some (.int i) => .int i
  | some (.float x) => .float x
  | _ => .string text

/-- The name and the value of a variable that is given as `name=value`. -/
def assignment (text : String) : Except Failure (String × Value) :=
  match Text.splitOnce? ['='] text.toList with
  | none => .error (.invalidVariable text "missing '='")
  | some (name, value) =>
    let name := Text.trimChars name
    if name.isEmpty then .error (.invalidVariable text "empty variable name")
    else .ok (String.ofList name, typedValue (String.ofList value))

/-- The assignments in order, up to the first one that is malformed. -/
def assignments : List String → Except Failure (List (String × Value))
  | [] => .ok []
  | text :: rest =>
    match assignment text with
    | .error failure => .error failure
    | .ok entry => (assignments rest).map (entry :: ·)

/-- All variables that the user gives. A failure of the object comes before those of the
assignments. -/
def collectVariables (object? : Option String) (texts : List String) :
    Except Failure Variables :=
  match (object?.map objectVariables).getD (.ok []) with
  | .error failure => .error failure
  | .ok scope => (assignments texts).map fun entries => Fields.extend scope entries

end PosterOverlay.CommandLine
