import PosterOverlay.Yaml.Lexer
import PosterOverlay.Yaml.Node
import PosterOverlay.Yaml.Schema

/-!
# Reading YAML

A text is cut into tokens, the tokens are put together into a tree, the references of the tree
are replaced by what they refer to, and scalars get their meaning. References may refer to a node
around them or multiply what they refer to; so nesting and the number of replacements are
bounded.
-/

namespace PosterOverlay.Yaml

namespace Tree

/-- The meaning of a node, with the number of references replaced before it. -/
abbrev Meaning := StateT Nat Option

/-- What a reference refers to: the replacement is counted, and there must not be too many. -/
def follow (tree : Tree) (number : Nat) : Meaning Node := do
  let count ← get
  if tree.events * 100 < count + 1 then failure
  set (count + 1)
  match tree.target? number with
  | some target => return target
  | none => failure

/-- Adds the entries of a mapping one by one; a key that is there already is refused. -/
def entries (key value : Node → Meaning Term) :
    List (Term × Term) → List (Node × Node) → Meaning (List (Term × Term))
  | done, [] => return done.reverse
  | done, (k, v) :: rest => do
    let key' ← key k
    if done.any fun entry => entry.1.same key' then failure
    let value' ← value v
    entries key value ((key', value') :: done) rest

/-- The term under a tag, when the tag is one of the document's own. -/
def wrap (own? : Option String) (term : Term) : Term :=
  match own? with
  | some tag => .tagged (Schema.ownTagName tag) term
  | none => term

/-- The meaning of a node that is no reference. `inside?` gives the meaning of the nodes in it
where deeper nesting is allowed; its flag says that the tag of the node does not count. -/
def meaningOf (inside? : Option (Bool → Node → Meaning Term)) (ignoreTag : Bool) :
    Node → Meaning Term
  | .scalar tag? text isPlain => do
    let own? := if ignoreTag then none else tag?.filter Schema.isOwnTag
    let tag? := if ignoreTag || own?.isSome then none else tag?
    match Schema.scalar? tag? text isPlain with
    | some term => return wrap own? term
    | none => failure
  | .sequence tag? items => do
    match inside? with
    | some inside =>
      let own? := if ignoreTag then none else tag?.filter Schema.isOwnTag
      return wrap own? (.sequence (← items.mapM (inside false)))
    | none => failure
  | .mapping tag? pairs => do
    match inside? with
    | some inside =>
      let own? := if ignoreTag then none else tag?.filter Schema.isOwnTag
      return wrap own? (.mapping
        (← entries (inside (ignoreTag || own?.isSome)) (inside false) [] pairs))
    | none => failure
  | .reference _ => failure

/-- The meaning of a node that nests at most `depth` collections, references replaced. -/
def meaning (tree : Tree) : Nat → Bool → Node → Meaning Term
  | 0, _, .reference number => do meaningOf none false (← tree.follow number)
  | 0, ignoreTag, node => meaningOf none ignoreTag node
  | depth + 1, _, .reference number => do
    meaningOf (some (tree.meaning depth)) false (← tree.follow number)
  | depth + 1, ignoreTag, node => meaningOf (some (tree.meaning depth)) ignoreTag node

/-- The term that a document means; an empty text means null. -/
def term? (tree : Tree) : Option Term :=
  match tree.root? with
  | none => some .null
  | some root => ((tree.meaning Building.maxDepth false root).run 0).map Prod.fst

end Tree

/-- The value that a YAML text describes; none when the text is not well formed. -/
def read? (text : String) : Option Value := do
  let tokens ← Token.ofText? text
  let tree ← Tree.ofTokens? tokens
  let term ← tree.term?
  return term.value

end PosterOverlay.Yaml
