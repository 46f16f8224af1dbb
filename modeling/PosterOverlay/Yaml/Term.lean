import PosterOverlay.Value.Same
import PosterOverlay.Value.Text

/-!
# YAML terms

What a document means before it becomes a value: keys need not be texts, and tags of the
document's own are still there. Two keys of one mapping must not be the same. When a term becomes
a value its tags are dropped and its keys become texts, where a later entry wins.
-/

namespace PosterOverlay.Yaml

/-- The meaning of a node. -/
inductive Term where
  /-- The absent value. -/
  | null
  /-- A truth value. -/
  | bool (b : Bool)
  /-- A whole number. -/
  | int (i : Int)
  /-- A double. -/
  | float (x : Float)
  /-- A text. -/
  | string (s : String)
  /-- A list of terms. -/
  | sequence (items : List Term)
  /-- Pairs of terms. -/
  | mapping (entries : List (Term × Term))
  /-- A term with a tag of the document's own. -/
  | tagged (tag : String) (term : Term)

namespace Term

mutual

/-- Whether two terms agree up to the order of entries. -/
def same : Term → Term → Bool
  | null, null => true
  | bool a, bool b => a == b
  | int a, int b => a == b
  | float a, float b => sameFloat a b
  | string a, string b => a == b
  | sequence as, sequence bs => sameItems as bs
  | mapping as, mapping bs => as.length == bs.length && within as bs
  | tagged tag a, tagged tag' b => tag == tag' && same a b
  | _, _ => false

/-- Whether two lists have the same terms in the same places. -/
def sameItems : List Term → List Term → Bool
  | [], [] => true
  | a :: as, b :: bs => same a b && sameItems as bs
  | _, _ => false

/-- Whether every entry of the first list is the same as one of the second. -/
def within : List (Term × Term) → List (Term × Term) → Bool
  | [], _ => true
  | (key, value) :: rest, bs =>
    bs.any (fun entry => same key entry.1 && same value entry.2) && within rest bs

end

mutual

/-- The value of a term. -/
def value : Term → Value
  | null => .null
  | bool b => .bool b
  | int i => .int i
  | float x => .float x
  | string s => .string s
  | sequence items => .sequence (values items)
  | mapping entries => .mapping (Fields.ofList (fields entries))
  | tagged _ term => value term

/-- The values of the items. -/
def values : List Term → List Value
  | [] => []
  | item :: rest => value item :: values rest

/-- The entries with their keys as texts. A null key is the text `null`, unless it is tagged. -/
def fields : List (Term × Term) → List (String × Value)
  | [] => []
  | (key, term) :: rest =>
    (match key with
      | null => ("null", value term)
      | _ => ((value key).text, value term)) :: fields rest

end

end Term

end PosterOverlay.Yaml
