import PosterOverlay.Catalog
import PosterOverlay.Files.Tree
import PosterOverlay.Overlay.Preview

/-!
# Sessions

A session keeps a catalog of libraries over a tree of files that changes meanwhile. It answers one
step after another.
-/

namespace PosterOverlay

/-- What a session knows. -/
structure Session where
  /-- The files as they are now. -/
  files : FileTree
  /-- The catalog of libraries. -/
  catalog : Catalog
  /-- The bounds of every expansion. -/
  limits : Limits

namespace Session

/-- What a session may be asked to do. -/
inductive Step where
  /-- Puts a file, a directory or a link where a path leads. -/
  | write (path : String) (node : FileNode)
  /-- Removes a file. -/
  | remove (path : String)
  /-- Asks for the templates of a library. -/
  | load (source : String)
  /-- Asks for two libraries, and whether both are kept as one. -/
  | same (first second : String)
  /-- Asks whether a library is kept. -/
  | holds (source : String)
  /-- Asks whether no library is kept. -/
  | isEmpty
  /-- Forgets all libraries. -/
  | clear
  /-- Asks for the overlay files in the directory of the libraries. -/
  | overlayFiles
  /-- Asks for the path of a library. -/
  | pathOf (source : String)
  /-- Asks for the names of the overlays in a file. -/
  | keys (path : String)
  /-- Expands the document in a file. -/
  | expandFile (path : String) (user : Variables)
  /-- Expands the document in a file for a preview. -/
  | preview (path : String) (user : Variables)
  /-- Expands a document. -/
  | expand (document : Document) (user : Variables)

/-- What a session answers. -/
inductive Answer where
  /-- The step was done. -/
  | done
  /-- Yes or no. -/
  | flag (b : Bool)
  /-- The templates of a library. -/
  | templates (fields : Fields Value)
  /-- A path. -/
  | path (text : String)
  /-- Paths or names. -/
  | names (texts : List String)
  /-- Overlays. -/
  | overlays (list : List Overlay)

/-- The catalog after a step is put back into the session. -/
def after {α : Type} (session : Session) (toAnswer : α → Answer) (result : α × Catalog) :
    Answer × Session :=
  (toAnswer result.1, { session with catalog := result.2 })

/-- Loads two libraries. They are one when they have one name and are kept. -/
def sameLibrary (session : Session) (first second : String) : Bool × Catalog :=
  let read := session.files.read
  let catalog := (session.catalog.load read first).2
  let isFirstHeld := catalog.holds first
  let catalog := (catalog.load read second).2
  (isFirstHeld && catalog.holds second && Text.trim first == Text.trim second, catalog)

/-- Takes one step. -/
def step (session : Session) : Step → Answer × Session
  | .write path node => (.done, { session with files := session.files.write path node })
  | .remove path => (.done, { session with files := session.files.remove path })
  | .load source => session.after .templates (session.catalog.load session.files.read source)
  | .same first second => session.after .flag (session.sameLibrary first second)
  | .holds source => (.flag (session.catalog.holds source), session)
  | .isEmpty => (.flag (session.catalog.size == 0), session)
  | .clear => session.after id (.done, session.catalog.clear)
  | .overlayFiles =>
    (.names (PosterOverlay.overlayFiles (session.files.files session.catalog.directory)), session)
  | .pathOf source => (.path (Catalog.pathOf session.catalog.directory source), session)
  | .keys path => (.names (Catalog.keysOf (session.files.read path)), session)
  | .expandFile path user => session.after .overlays
    (session.catalog.expandFile session.files.read session.limits path user)
  | .preview path user => session.after (fun list => .overlays (Preview.select list))
    (session.catalog.expandFile session.files.read session.limits path user)
  | .expand document user => session.after .overlays
    (session.catalog.expand session.files.read session.limits document user)

/-- Takes steps one after another. Every answer comes with the number of libraries kept after
it. -/
def run (session : Session) : List Step → List (Answer × Nat)
  | [] => []
  | next :: rest =>
    let (answer, session) := session.step next
    (answer, session.catalog.size) :: run session rest

end Session

end PosterOverlay
