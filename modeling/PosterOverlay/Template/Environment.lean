import PosterOverlay.Template.Definition
import PosterOverlay.Value.Same

/-!
# The variables of a template call

The variables seen by a template grow in stages: the caller's variables, the defaults that they
leave open, a bounded number of settling passes, the conditionals' results, the defaults that
refer to such results, and settling passes again. A settling pass resolves the texts that still
hold placeholders, one after another, and then renames the variables whose names do.
-/

namespace PosterOverlay

namespace Variables

/-- Resolves the unresolved texts among the later variables in order, each one seeing the results
of those before it. -/
def refreshFrom (limits : Limits) (done : Variables) : Variables → Variables
  | [] => done
  | (name, value) :: rest =>
    let fresh :=
      if value.isUnresolved then limits.resolve (done ++ (name, value) :: rest) value else value
    refreshFrom limits (done ++ [(name, fresh)]) rest

/-- Resolves every unresolved text once, in order. -/
def refresh (limits : Limits) (scope : Variables) : Variables :=
  refreshFrom limits [] scope

/-- The name that a variable gets when names are settled: none when its name changes to one that
another variable has already. -/
def settledName? (limits : Limits) (scope : Variables) (name : String) : Option String :=
  if Placeholder.occurs name then
    let resolved := limits.resolveName scope name
    if resolved ≠ name ∧ Fields.contains scope resolved then none else some resolved
  else some name

/-- Renames the variables whose names hold placeholders; of several that get one name the first
stays. -/
def rename (limits : Limits) (scope : Variables) : Variables :=
  Fields.extendNew [] (List.filterMap (fun entry : String × Value =>
    (settledName? limits scope entry.1).map fun name => (name, entry.2)) scope)

/-- One settling pass. -/
def settleOnce (limits : Limits) (scope : Variables) : Variables :=
  let fresh := refresh limits scope
  if fresh.any fun entry => Placeholder.occurs entry.1 then rename limits fresh else fresh

/-- Settling passes until one changes nothing, at most `count` of them. -/
def settleUpTo (limits : Limits) : Nat → Variables → Variables
  | 0, scope => scope
  | count + 1, scope =>
    let next := settleOnce limits scope
    if Variables.same next scope then next else settleUpTo limits count next

/-- As many settling passes as the limits allow. -/
def settle (limits : Limits) (scope : Variables) : Variables :=
  settleUpTo limits limits.passes scope

/-- Binds the defaults whose resolved names are still free. Their values stay as written. -/
def addDefaults (limits : Limits) (defaults scope : Variables) : Variables :=
  defaults.foldl (fun acc entry =>
    Fields.insertNew (limits.resolveName acc entry.1) entry.2 acc) scope

/-- Resolves one default that holds placeholders and binds it where the variable has no value
yet. -/
def upgrade (limits : Limits) (scope : Variables) (entry : String × Value) : Variables :=
  if entry.2.isUnresolved then
    let name := limits.resolveName scope entry.1
    let value := limits.resolve scope entry.2
    if value.isNull || scope.hasValue name then scope
    else Fields.insert name value scope
  else scope

/-- Resolves the defaults that hold placeholders, in order, and binds those whose variable has no
value yet. -/
def upgradeDefaults (limits : Limits) (defaults scope : Variables) : Variables :=
  defaults.foldl (upgrade limits) scope

end Variables

namespace Template

/-- The caller's variables with the defaults of the template beneath them, settled. -/
def initial (template : Template) (limits : Limits) (arguments : Variables) (key : String) :
    Variables :=
  Variables.settle limits (Variables.addDefaults limits template.defaults
    (Fields.insertNew "key" (.string key) arguments))

/-- The variables that the overlay of the template sees. -/
def environment (template : Template) (limits : Limits) (arguments : Variables) (key : String) :
    Variables :=
  let first := template.initial limits arguments key
  let computed := template.conditionals.evaluate limits first
  Variables.settle limits
    (Variables.upgradeDefaults limits template.defaults (first.extend computed))

/-- Whether a resolved field is kept: null never, and an unresolved text only as the name. -/
def keepsField (rawName : String) (value : Value) : Bool :=
  !value.isNull && (rawName == "name" || !value.isUnresolved)

/-- The fields of the overlay, resolved; those without a value are dropped. -/
def resolveOverlay (limits : Limits) (overlay : Fields Value) (scope : Variables) :
    Fields Value :=
  Fields.ofList (overlay.filterMap fun entry =>
    let value := limits.resolve scope entry.2
    if keepsField entry.1 value then some (limits.resolveName scope entry.1, value) else none)

/-- The overlay fields that the template produces for the caller's variables. -/
def produce (template : Template) (limits : Limits) (arguments : Variables) (key : String) :
    Fields Value :=
  if template.overlay.isEmpty then []
  else resolveOverlay limits template.overlay (template.environment limits arguments key)

end Template

end PosterOverlay
