import PosterOverlay.Fields
import PosterOverlay.Yaml.Token

/-!
# Nodes of a YAML document

Tokens are put together into a tree of scalars, sequences, mappings and references. A document
nests at most 128 collections. A name given by an anchor stands for the node that last took its
number; numbers count the different names seen so far, so a name that is given again shares its
number with the next new name.
-/

namespace PosterOverlay.Yaml

/-- A node of a document. -/
inductive Node where
  /-- A text, plain or not, perhaps with a tag. -/
  | scalar (tag? : Option String) (text : String) (isPlain : Bool)
  /-- A list of nodes. -/
  | sequence (tag? : Option String) (items : List Node)
  /-- Pairs of nodes. -/
  | mapping (tag? : Option String) (entries : List (Node × Node))
  /-- A reference to the anchored node of that number. -/
  | reference (number : Nat)

/-- A node with an anchor. -/
structure Anchored where
  /-- The number of its anchor. -/
  number : Nat
  /-- The number of events before it. -/
  position : Nat
  /-- The node. -/
  node : Node

/-- The state in which nodes are read. -/
structure Builder where
  /-- The tokens that are left. -/
  tokens : List Token
  /-- The handles of tags. -/
  handles : Fields String
  /-- The numbers of the anchors by name. -/
  numbers : Fields Nat
  /-- The anchored nodes that are complete. -/
  anchored : List Anchored
  /-- The number of events so far: one for a scalar or reference, two for a collection. -/
  events : Nat

/-- Reading of nodes, which may fail. -/
abbrev Building := StateT Builder Option

/-- How a node is read: whether it may be in block style, and whether it may be a sequence
without indentation of its own. -/
abbrev NodeReader := Bool → Bool → Building Node

namespace Building

/-- The next token. -/
def peek : Building Token := do
  return (← get).tokens.headD .textEnd

/-- Passes over the next token. -/
def skip : Building Unit :=
  modify fun builder => { builder with tokens := builder.tokens.tail }

/-- Passes over the next token if it is the given one, and tells whether it was. -/
def skipIf (token : Token) : Building Bool := do
  if (← peek) = token then
    skip
    return true
  else return false

/-- Counts one event. -/
def event : Building Unit :=
  modify fun builder => { builder with events := builder.events + 1 }

/-- The scalar that stands where a node is left out. -/
def missing : Building Node := do
  event
  return .scalar none "" true

/-- Reads a node, or takes it as left out before one of the given tokens. -/
def nodeUnless (stops : List Token) (node : Building Node) : Building Node := do
  if stops.contains (← peek) then missing else node

/-- The tag that a handle and the rest of a tag make. -/
def resolveTag (handle suffix : String) : Building String := do
  if handle = "" then return suffix
  else
    match (← get).handles.get? handle with
    | some replacement => return replacement ++ suffix
    | none => failure

/-- An anchor and a tag before a node. -/
structure Properties where
  /-- The name of the anchor. -/
  anchor? : Option String
  /-- The resolved tag. -/
  tag? : Option String

/-- Reads a tag if there is one. -/
def readTag : Building (Option String) := do
  match ← peek with
  | .tag handle suffix => skip; return some (← resolveTag handle suffix)
  | _ => return none

/-- Reads an anchor if there is one. -/
def readAnchor : Building (Option String) := do
  match ← peek with
  | .anchor name => skip; return some name
  | _ => return none

/-- Reads an anchor and a tag in either order. -/
def properties : Building Properties := do
  match ← readAnchor with
  | some name => return ⟨some name, ← readTag⟩
  | none =>
    let tag? ← readTag
    let anchor? ← if tag?.isSome then readAnchor else pure none
    return ⟨anchor?, tag?⟩

/-- Gives the anchor its number. -/
def numberAnchor (name : String) : Building Anchored := do
  let builder ← get
  let number := builder.numbers.length
  set { builder with numbers := builder.numbers.insert name number }
  return ⟨number, builder.events, .reference number⟩

/-- Reads a node under an anchor, which is numbered before the node is read. -/
def anchoring (anchor? : Option String) (node : Building Node) : Building Node := do
  match anchor? with
  | none => node
  | some name =>
    let place ← numberAnchor name
    let result ← node
    modify fun builder =>
      { builder with anchored := { place with node := result } :: builder.anchored }
    return result

/-- A bound for rounds that take at least one token each: as many as tokens are left, and one for
the end. -/
def rounds : Building (List Token) := do
  return .textEnd :: (← get).tokens

/-- The items of a sequence in block style. -/
def blockItems (child : NodeReader) : List Token → Building (List Node)
  | [] => failure
  | _ :: rounds => do
    if ← skipIf .dash then
      let item ← nodeUnless [.dash, .blockEnd] (child true false)
      return item :: (← blockItems child rounds)
    else if ← skipIf .blockEnd then return []
    else failure

/-- The items of a sequence in block style without indentation of its own. -/
def bareItems (child : NodeReader) : List Token → Building (List Node)
  | [] => failure
  | _ :: rounds => do
    if ← skipIf .dash then
      let item ← nodeUnless [.dash, .key, .value, .blockEnd] (child true false)
      return item :: (← bareItems child rounds)
    else return []

/-- The value of an entry, left out when there is no colon or when one of the given tokens
follows it. -/
def entryValue (stops : List Token) (node : Building Node) : Building Node := do
  if ← skipIf .value then nodeUnless stops node else missing

/-- The entries of a mapping in block style. -/
def blockEntries (child : NodeReader) : List Token → Building (List (Node × Node))
  | [] => failure
  | _ :: rounds => do
    let stops := [Token.key, .value, .blockEnd]
    if ← skipIf .key then
      let key ← nodeUnless stops (child true true)
      let value ← entryValue stops (child true true)
      return (key, value) :: (← blockEntries child rounds)
    else if ← skipIf .blockEnd then return []
    else failure

/-- A mapping of one entry written as an item of a sequence in flow style. A key that is left out
takes the next token with it. -/
def flowPair (grandchild : NodeReader) : Building Node := do
  event
  let key ←
    if [Token.value, .comma, .closeSequence].contains (← peek) then
      skip
      missing
    else grandchild false false
  let value ← entryValue [.comma, .closeSequence] (grandchild false false)
  event
  return .mapping none [(key, value)]

/-- The items of a sequence in flow style; `isFirst` when none has been read. -/
def flowItems (child : NodeReader) (grandchild? : Option NodeReader) :
    List Token → Bool → Building (List Node)
  | [], _ => failure
  | _ :: rounds, isFirst => do
    if ← skipIf .closeSequence then return []
    if !isFirst then
      if !(← skipIf .comma) then failure
    if ← skipIf .closeSequence then return []
    let item ←
      if ← skipIf .key then
        match grandchild? with
        | some grandchild => flowPair grandchild
        | none => failure
      else child false false
    return item :: (← flowItems child grandchild? rounds false)

/-- The entries of a mapping in flow style; `isFirst` when none has been read. -/
def flowEntries (child : NodeReader) : List Token → Bool → Building (List (Node × Node))
  | [], _ => failure
  | _ :: rounds, isFirst => do
    if ← skipIf .closeMapping then return []
    if !isFirst then
      if !(← skipIf .comma) then failure
    if ← skipIf .closeMapping then return []
    let entry ←
      if ← skipIf .key then
        let key ← nodeUnless [.value, .comma, .closeMapping] (child false false)
        let value ← entryValue [.comma, .closeMapping] (child false false)
        pure (key, value)
      else
        let key ← child false false
        let value ← missing
        pure (key, value)
    return entry :: (← flowEntries child rounds false)

/-- A collection whose items are read by the given reader, with its two events. -/
def collection {α : Type} (items : List Token → Building α) : Building α := do
  event
  let result ← items (← rounds)
  event
  return result

/-- Reads the content of a node after its properties. `child?` reads the nodes inside it and
`grandchild?` those inside them; they are missing where no deeper nesting is allowed. -/
def content (child? grandchild? : Option NodeReader) (given : Properties)
    (inBlock unindented : Bool) : Building Node := do
  let tag? := given.tag?
  let child : NodeReader := child?.getD fun _ _ => failure
  let nested {α : Type} (items : List Token → Building α) : Building α :=
    if child?.isSome then collection items else failure
  match ← peek with
  | .dash =>
    if unindented then return .sequence tag? (← nested (bareItems child))
    else if given.anchor?.isSome || tag?.isSome then event; return .scalar tag? "" true
    else failure
  | .scalar text isPlain =>
    skip
    event
    return .scalar (tag?.filter (· != "!")) text isPlain
  | .openSequence =>
    skip
    return .sequence tag? (← nested fun rounds => flowItems child grandchild? rounds true)
  | .openMapping =>
    skip
    return .mapping tag? (← nested fun rounds => flowEntries child rounds true)
  | next =>
    if inBlock && next = .blockSequence then
      skip
      return .sequence tag? (← nested (blockItems child))
    else if inBlock && next = .blockMapping then
      skip
      return .mapping tag? (← nested (blockEntries child))
    else if given.anchor?.isSome || tag?.isSome then
      event
      return .scalar tag? "" true
    else failure

/-- Reads a reference or a node with its properties. -/
def nodeWith (child? grandchild? : Option NodeReader) : NodeReader := fun inBlock unindented => do
  match ← peek with
  | .alias name =>
    match (← get).numbers.get? name with
    | some number =>
      skip
      event
      return .reference number
    | none => failure
  | _ =>
    let given ← properties
    anchoring given.anchor? (content child? grandchild? given inBlock unindented)

/-- Reads a node that nests at most `depth` collections. -/
def node : Nat → NodeReader
  | 0 => nodeWith none none
  | 1 => nodeWith (some (node 0)) none
  | depth + 2 => nodeWith (some (node (depth + 1))) (some (node depth))

/-- How many collections a document may nest. -/
def maxDepth : Nat := 128

/-- Reads directives: at most one for the version, which has to be 1.1 or 1.2, and one for each
handle. -/
def directives (versionSeen : Bool) : List Token → Building Unit
  | [] => failure
  | _ :: rounds => do
    match ← peek with
    | .version major minor =>
      if versionSeen || major ≠ 1 || (minor ≠ 1 && minor ≠ 2) then failure
      skip
      directives true rounds
    | .handle name replacement =>
      let builder ← get
      if builder.handles.contains name then failure
      set { builder with handles := builder.handles.insert name replacement }
      skip
      directives versionSeen rounds
    | _ => return ()

/-- Adds the handles that every document has, beneath those of its directives. -/
def addStandardHandles : Building Unit :=
  modify fun builder =>
    { builder with handles :=
        (builder.handles.insertNew "!" "!").insertNew "!!" "tag:yaml.org,2002:" }

/-- Whether a token opens a document explicitly, as a mark or a directive. -/
def opensDocument : Token → Bool
  | .version _ _ => true
  | .handle _ _ => true
  | .documentStart => true
  | _ => false

/-- Reads the node of the only document of a text; none when there is no document. -/
def document : Building (Option Node) := do
  let first ← peek
  if first = .textEnd then return none
  let root ←
    if opensDocument first then
      directives false (← rounds)
      addStandardHandles
      if !(← skipIf .documentStart) then failure
      let next ← peek
      if opensDocument next || next = .documentEnd || next = .textEnd then missing
      else node maxDepth true false
    else
      addStandardHandles
      node maxDepth true false
  modify fun builder =>
    { builder with tokens := builder.tokens.dropWhile (· = .documentEnd) }
  if (← peek) = .textEnd then return some root else failure

end Building

/-- A document that has been read. -/
structure Tree where
  /-- The root; none for an empty text. -/
  root? : Option Node
  /-- The anchored nodes. -/
  anchored : List Anchored
  /-- The number of events. -/
  events : Nat

/-- The document that a list of tokens makes. -/
def Tree.ofTokens? (tokens : List Token) : Option Tree :=
  (Building.document.run ⟨tokens, [], [], [], 0⟩).map fun (root?, builder) =>
    ⟨root?, builder.anchored, builder.events⟩

/-- The anchored node with a number: of several the one that starts last. -/
def Tree.target? (tree : Tree) (number : Nat) : Option Node :=
  ((tree.anchored.filter fun place => place.number = number).foldl (fun best place =>
    match best with
    | some held => if held.position < place.position then some place else some held
    | none => some place) (none : Option Anchored)).map Anchored.node

end PosterOverlay.Yaml
