import PosterOverlay.Catalog
import PosterOverlay.CommandLine.Request
import PosterOverlay.CommandLine.Variables
import PosterOverlay.Json.Writer
import PosterOverlay.Overlay.Preview
import PosterOverlay.Yaml.Writer

/-!
# The program

What the program writes for given arguments and environment. It reaches files only through a
host, which reads one file or lists those below a directory; so one program runs on a disk and on
a tree of files in memory.
-/

namespace PosterOverlay.CommandLine

/-- The ways in which the program reaches files. -/
structure Host (m : Type → Type) where
  /-- Reads the text of a file. -/
  read : String → m (Except Failure String)
  /-- Lists the paths of all files at or below a path. -/
  files : String → m (List String)

/-- What a run of the program leaves behind. -/
structure Outcome where
  /-- The exit code. -/
  code : Nat
  /-- What is written to the standard output. -/
  output : String
  /-- What is written to the standard error output. -/
  errors : String
  deriving DecidableEq, Repr

namespace Outcome

/-- A successful run. -/
def success (output : String) : Outcome := ⟨0, output, ""⟩

/-- A run that ends with a failure. -/
def failure (failure : Failure) : Outcome :=
  let advice := (failure.advice?.map fun text => "  Fix: " ++ text ++ "\n").getD ""
  ⟨1, "", "Error: " ++ failure.message ++ "\n" ++ advice⟩

/-- How the program is called. -/
def usage : String :=
  "Usage: overlay-engine [--verbose] expand FILE [--var KEY=VALUE]... [--vars JSON]\n" ++
  "         [--root DIR] [--defaults-dir DIR] [--format json|yaml] [--preview]\n" ++
  "       overlay-engine [--verbose] keys FILE\n" ++
  "       overlay-engine [--verbose] list [--root DIR] [--defaults-dir DIR]\n"

/-- A run with arguments that make no sense. -/
def misuse : Outcome := ⟨2, "", usage⟩

end Outcome

/-- The text of overlays in a format. -/
def Format.render (format : Format) (overlays : List Overlay) : String :=
  let value := Value.sequence (overlays.map fun overlay => .mapping overlay.fields)
  match format with
  | .json => Json.writePretty value
  | .yaml => Yaml.write value

/-- Texts, each with a line break after it. -/
def lines (texts : List String) : String :=
  String.join (texts.map (· ++ "\n"))

namespace Host

variable {m : Type → Type} [Monad m]

/-- The overlays of the document in a file, with the libraries in a directory. -/
def overlaysOf (host : Host m) (settings : Settings) (path : String) (user : Variables) :
    m (List Overlay) := do
  match Catalog.valueOf (← host.read path) with
  | .error _ => return []
  | .ok value =>
    let document := Document.ofValue value
    match document.external? with
    | none => return document.expand settings.limits [] user
    | some external =>
      let text ← host.read (Catalog.pathOf settings.directory external.source)
      let library := (Catalog.templatesOf text).toOption.getD []
      return document.expand settings.limits library user

/-- Expands the document in a file. -/
def expand (host : Host m) (settings : Settings) (options : Options) (path : String) :
    m Outcome := do
  match collectVariables options.object? options.assignments with
  | .error failure => return .failure failure
  | .ok user =>
    let all ← host.overlaysOf settings path user
    let overlays := if options.isPreview then Preview.select all else all
    if overlays.isEmpty then
      return ⟨0, "", "! No overlays found in '" ++ path ++ "'\n"⟩
    else
      return .success (lines [(options.format?.getD .json).render overlays])

/-- Names the overlays that the document in a file declares. -/
def keys (host : Host m) (path : String) : m Outcome := do
  return .success (lines (Catalog.keysOf (← host.read path)))

/-- Lists the overlay files in the directory of the libraries, as seen from there. -/
def list (host : Host m) (settings : Settings) : m Outcome := do
  let files ← host.files settings.directory
  return .success (lines ((overlayFiles files).map (Path.relativeTo settings.directory)))

/-- Runs the program. -/
def run (host : Host m) (environment : String → Option String) (arguments : List String) :
    m Outcome :=
  match Request.ofTexts arguments with
  | .help => return .success Outcome.usage
  | .version => return .success (lines ["overlay-engine 0.1.0"])
  | .invalid => return .misuse
  | .run command options =>
    let settings := options.settings (.ofEnvironment environment)
    let path := options.file?.getD ""
    match command with
    | .expand => host.expand settings options path
    | .keys => host.keys path
    | .list => host.list settings

end Host

end PosterOverlay.CommandLine
