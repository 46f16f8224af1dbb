import PosterOverlay.Text.Separator

/-!
# Paths

A path is a text whose parts stand between slashes. Joining keeps the texts as they are; paths
are compared and cut by their components, for which needless slashes and dots do not count.
-/

namespace PosterOverlay.Path

/-- What a part of a path stands for. -/
inductive Component where
  /-- The root, for a path that starts with a slash. -/
  | root
  /-- The current directory, where a path starts with a dot. -/
  | here
  /-- The directory above. -/
  | up
  /-- An entry of a directory. -/
  | name (text : String)
  deriving DecidableEq, Repr

/-- Whether the path starts at the root. -/
def isAbsolute (path : String) : Bool :=
  path.toList.head? == some '/'

/-- The second path as seen from the first one: a slash is put between them when it is missing,
and an absolute second path stands alone. -/
def join (base path : String) : String :=
  if isAbsolute path then path
  else if base.toList.getLast?.any (· != '/') then base ++ "/" ++ path
  else base ++ path

/-- The texts between the slashes. -/
def parts (path : String) : List String :=
  Text.pieces "/" path

/-- The component of a part that is not at the front. -/
def innerComponent? (part : String) : Option Component :=
  if part = "" || part = "." then none
  else if part = ".." then some .up
  else some (.name part)

/-- The components of a path. -/
def components (path : String) : List Component :=
  let front : List Component :=
    if isAbsolute path then [.root]
    else if (parts path).head? == some "." then [.here]
    else []
  front ++ (parts path).filterMap innerComponent?

/-- The name of what the path leads to, when it ends in a name. -/
def fileName? (path : String) : Option String :=
  match (components path).getLast? with
  | some (.name text) => some text
  | _ => none

/-- The part of a file name after its last dot, unless the dot is its first character. -/
def extensionOf? (name : String) : Option String :=
  let letters := name.toList.reverse
  match letters.dropWhile (· != '.') with
  | _ :: _ :: _ => some (String.ofList (letters.takeWhile (· != '.')).reverse)
  | _ => none

namespace Component

/-- The text of a component. -/
def text : Component → String
  | root => "/"
  | here => "."
  | up => ".."
  | name text => text

/-- The place of the kinds of components in the order of paths. -/
def rank : Component → Nat
  | root => 0
  | here => 1
  | up => 2
  | name _ => 3

/-- The order of components: by kind, and names by their characters. -/
def precedes (a b : Component) : Bool :=
  a.rank < b.rank || (a.rank == b.rank && a.text < b.text)

end Component

/-- The order of paths, component by component. -/
def le (a b : String) : Bool :=
  !List.lex (components b) (components a) Component.precedes

/-- The path as seen from a directory that it lies in. -/
def relativeTo (base path : String) : String :=
  match (components base).isPrefixOf? (components path) with
  | some rest => Text.joined "/" (rest.map Component.text)
  | none => path

end PosterOverlay.Path
