import PosterOverlay.Files.Path

/-!
# Listing overlay files

Of the files in a directory those with the ending of YAML are overlay files, save the library of
templates. They are listed in the order of their paths.
-/

namespace PosterOverlay

/-- The name of the file with the default library of templates. -/
def libraryFile : String := "templates.yml"

/-- Whether a path leads to an overlay file. -/
def isOverlayFile (path : String) : Bool :=
  match Path.fileName? path with
  | some name =>
    let ending := Path.extensionOf? name
    (ending == some "yml" || ending == some "yaml") && name != libraryFile
  | none => false

/-- The overlay files among the files, in order. -/
def overlayFiles (files : List String) : List String :=
  (files.filter isOverlayFile).mergeSort Path.le

end PosterOverlay
