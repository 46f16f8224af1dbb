import PosterOverlay.Document.Expansion
import PosterOverlay.Failure
import PosterOverlay.Files.Listing
import PosterOverlay.Text.Blank
import PosterOverlay.Yaml.Reading

/-!
# The catalog of template libraries

Documents name libraries of templates, which are files in the catalog's directory. A library is
read when it is asked for the first time, and its templates are kept. A library that cannot be
read has no templates and is not kept, so that it is read again the next time.
-/

namespace PosterOverlay

/-- The libraries read so far, with the directory in which libraries are found. -/
structure Catalog where
  /-- The directory of the libraries. -/
  directory : String
  /-- The templates of the libraries read so far, by the trimmed names of the libraries. -/
  held : Fields (Fields Value)

namespace Catalog

/-- A way of reading files by their paths. -/
abbrev Reader := String → Except Failure String

/-- A catalog that has read nothing. -/
def inDirectory (directory : String) : Catalog := ⟨directory, []⟩

/-- The path of a library: the default library has a file of its own, and all others are paths
seen from the directory. -/
def pathOf (directory source : String) : String :=
  let name := Text.trim source
  Path.join directory (if name = External.defaultSource then libraryFile else name)

/-- The value of a YAML file, given the result of reading it. -/
def valueOf (text : Except Failure String) : Except Failure Value :=
  text.bind fun text =>
    match Yaml.read? text with
    | some value => .ok value
    | none => .error .malformedYaml

/-- The templates in the file of a library. -/
def templatesOf (text : Except Failure String) : Except Failure (Fields Value) :=
  (valueOf text).map fun value => (value.section? "templates").getD []

/-- The names of the overlays that the document in a file declares. -/
def keysOf (text : Except Failure String) : List String :=
  match valueOf text with
  | .ok value => (Document.ofValue value).keys
  | .error _ => []

/-- The templates of a library, and the catalog afterwards. -/
def load (catalog : Catalog) (read : Reader) (source : String) : Fields Value × Catalog :=
  let name := Text.trim source
  match catalog.held.get? name with
  | some templates => (templates, catalog)
  | none =>
    match templatesOf (read (pathOf catalog.directory name)) with
    | .ok templates =>
      (templates, { catalog with held := catalog.held.insert name templates })
    | .error _ => ([], catalog)

/-- Whether the templates of a library are kept. -/
def holds (catalog : Catalog) (source : String) : Bool :=
  catalog.held.contains (Text.trim source)

/-- How many libraries are kept. -/
def size (catalog : Catalog) : Nat :=
  catalog.held.length

/-- The catalog without what it kept. -/
def clear (catalog : Catalog) : Catalog :=
  { catalog with held := [] }

/-- The templates of the library that a document names, and the catalog afterwards. -/
def loadFor (catalog : Catalog) (read : Reader) (document : Document) :
    Fields Value × Catalog :=
  match document.external? with
  | some external => catalog.load read external.source
  | none => ([], catalog)

/-- The overlays of a document, and the catalog afterwards. -/
def expand (catalog : Catalog) (read : Reader) (limits : Limits) (document : Document)
    (user : Variables) : List Overlay × Catalog :=
  let (library, catalog) := catalog.loadFor read document
  (document.expand limits library user, catalog)

/-- The overlays of the document in a file, and the catalog afterwards. A file that cannot be read
has none. -/
def expandFile (catalog : Catalog) (read : Reader) (limits : Limits) (path : String)
    (user : Variables) : List Overlay × Catalog :=
  match valueOf (read path) with
  | .ok value => catalog.expand read limits (.ofValue value) user
  | .error _ => ([], catalog)

end Catalog

end PosterOverlay
