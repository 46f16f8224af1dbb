import PosterOverlay.Value

/-!
# Sameness of values

Two values are the same when they agree up to the order of named values, at every depth. Whole
numbers and doubles are never the same; of doubles, all that are not a number are the same, and
so are the two zeros.
-/

namespace PosterOverlay

/-- Sameness of doubles: equality, with one class for those that are not a number. -/
def sameFloat (x y : Float) : Bool :=
  x == y || (x.isNaN && y.isNaN)

namespace Value

mutual

/-- Whether two values agree up to the order of named values. -/
def same : Value → Value → Bool
  | null, null => true
  | bool a, bool b => a == b
  | int a, int b => a == b
  | float a, float b => sameFloat a b
  | string a, string b => a == b
  | sequence as, sequence bs => sameItems as bs
  | mapping as, mapping bs => as.length == bs.length && within as bs
  | _, _ => false

/-- Whether two lists have the same values in the same places. -/
def sameItems : List Value → List Value → Bool
  | [], [] => true
  | a :: as, b :: bs => same a b && sameItems as bs
  | _, _ => false

/-- Whether every name of the first list is bound to the same value in the second. -/
def within : List (String × Value) → List (String × Value) → Bool
  | [], _ => true
  | (name, a) :: rest, bs =>
    (match Fields.get? bs name with
      | some b => same a b
      | none => false) && within rest bs

end

end Value

/-- Whether two sets of variables bind the same names to the same values, in any order. -/
def Variables.same (first second : Variables) : Bool :=
  first.length == second.length && Value.within first second

end PosterOverlay
