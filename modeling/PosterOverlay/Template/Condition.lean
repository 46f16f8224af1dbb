import PosterOverlay.Placeholder.Substitution

/-!
# Conditionals

A conditional chooses one of several values by looking at variables. Its clauses are tried in
order; the first whose checks all pass gives the value, and the default is taken when none does.
A check names a variable, possibly with placeholders in the name, and says what its text should
be; the endings `.not` and `.exists` turn it around or ask only for presence.
-/

namespace PosterOverlay

/-- One demand of a clause. -/
structure Check where
  /-- The variable, with its ending if any. -/
  name : String
  /-- What is expected of it. -/
  expected : Value

/-- A value together with the checks that lead to it. -/
structure Clause where
  /-- The value chosen when every check passes. -/
  value : Value
  /-- The checks, in order. -/
  checks : List Check

/-- A choice among values. -/
structure Conditional where
  /-- The value when no clause matches. -/
  otherwise : Value
  /-- The clauses, in the order in which they are tried. -/
  clauses : List Clause

/-- Conditionals by the name of the variable that they compute, possibly with placeholders. -/
abbrev Conditionals := Fields Conditional

/-- Whether a variable is bound to something: neither null nor an unresolved text. -/
def Variables.hasValue (scope : Variables) (name : String) : Bool :=
  match Fields.get? scope name with
  | some value => !value.isNull && !value.isUnresolved
  | none => false

namespace Check

/-- Whether a variable meets what is expected; an absent one does not. -/
def isMet (expected : Value) : Option Value → Bool
  | some value => value.isOneOf expected
  | none => false

/-- Whether the check passes. The name is resolved first, and for `.exists` once more without its
ending. -/
def passes (check : Check) (limits : Limits) (scope : Variables) : Bool :=
  let name := limits.resolveName scope check.name
  match Text.stripEnd? name ".exists" with
  | some base =>
    scope.hasValue (limits.resolveName scope base) == check.expected.isTrue
  | none =>
    match Text.stripEnd? name ".not" with
    | some base => !isMet check.expected (Fields.get? scope base)
    | none => isMet check.expected (Fields.get? scope name)

end Check

namespace Clause

/-- The clause written as a mapping: `value` holds the value and every other entry is a check. -/
def ofFields (fields : Fields Value) : Clause where
  value := (fields.get? "value").getD .null
  checks := (fields.filter fun entry => entry.1 != "value").map fun entry => ⟨entry.1, entry.2⟩

/-- Whether every check passes. -/
def isMatch (clause : Clause) (limits : Limits) (scope : Variables) : Bool :=
  clause.checks.all fun check => check.passes limits scope

end Clause

namespace Conditional

/-- The clauses written under `conditions`: a list of mappings, or one mapping alone. Items that
are no mappings are skipped. -/
def clausesOf : Option Value → List Clause
  | some (.mapping fields) => [.ofFields fields]
  | some (.sequence items) => (items.filterMap Value.mapping?).map Clause.ofFields
  | _ => []

/-- The conditional that a mapping describes. -/
def ofValue? (value : Value) : Option Conditional :=
  value.mapping?.map fun fields =>
    ⟨(fields.get? "default").getD .null, clausesOf (fields.get? "conditions")⟩

/-- The value that is chosen, not yet resolved. -/
def choice (conditional : Conditional) (limits : Limits) (scope : Variables) : Value :=
  ((conditional.clauses.find? fun clause => clause.isMatch limits scope).map
    Clause.value).getD conditional.otherwise

/-- The value that is chosen. -/
def evaluate (conditional : Conditional) (limits : Limits) (scope : Variables) : Value :=
  limits.resolve scope (conditional.choice limits scope)

end Conditional

namespace Conditionals

/-- The conditionals written in a mapping; entries that describe none are skipped. -/
def ofFields (fields : Fields Value) : Conditionals :=
  Fields.ofList (fields.filterMap fun entry =>
    (Conditional.ofValue? entry.2).map fun conditional => (entry.1, conditional))

/-- The variables that the conditionals compute, all from the same variables. -/
def evaluate (conditionals : Conditionals) (limits : Limits) (scope : Variables) : Variables :=
  Fields.ofList (conditionals.map fun entry =>
    (limits.resolveName scope entry.1, entry.2.evaluate limits scope))

end Conditionals

end PosterOverlay
