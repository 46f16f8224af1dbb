import PosterOverlay.Catalog
import PosterOverlay.Proofs.Files.Lookup

/-!
# The files of libraries

A library is found in a file by its name and the directory of the libraries. What is read of it is
what the file holds: its bytes have to be those of a text, the text has to be YAML, and the templates
are those of the mapping under `templates`.
-/

namespace PosterOverlay

/-- The templates in the file of a library: those of the mapping under `templates`, and none if the
file holds no such mapping. -/
def Value.libraryTemplates : Value → Fields Value
  | .mapping fields =>
    match Fields.get? fields "templates" with
    | some (.mapping templates) => templates
    | _ => []
  | _ => []

/-- The library that a document names. It has to hold a mapping under `external_templates`, and
means the default library when there is no text under `default`. -/
def Value.namedLibrary? : Value → Option String
  | .mapping fields =>
    match Fields.get? fields "external_templates" with
    | some (.mapping external) =>
      match Fields.get? external "default" with
      | some (.string source) => some source
      | _ => some "templates"
    | _ => none
  | _ => none

namespace FileTree

variable (files : FileTree) (directory name : String)

/-- The text of the file of a library. The default library has a file of its own in the directory of
the libraries. The name of any other one is a path, seen from that directory unless it opens with a
slash. -/
def HasLibraryText (text : String) : Prop :=
  if name = "templates" then
    files.LeadsToText (Path.start files.here directory)
      (Path.names directory ++ ["templates.yml"]) text
  else if name.toList.head? = some '/' then
    files.LeadsToText [] (Path.names name) text
  else
    files.LeadsToText (Path.start files.here directory)
      (Path.names directory ++ Path.names name) text

/-- The file of a library is there, it holds a text that is YAML, and these are its templates. -/
def HasLibrary (templates : Fields Value) : Prop :=
  ∃ text value, files.HasLibraryText directory name text ∧ Yaml.read? text = some value ∧
    value.libraryTemplates = templates

/-- A file is there, and it holds a text that is YAML and means the value. -/
def HasValue (path : String) (value : Value) : Prop :=
  ∃ text, files.HasText path text ∧ Yaml.read? text = some value

end FileTree

namespace Catalog

theorem valueOf_read_eq_ok_iff {files : FileTree} {path : String} {value : Value} :
    valueOf (files.read path) = .ok value ↔ files.HasValue path value := by
  simp only [FileTree.HasValue, ← FileTree.read_eq_ok_iff, valueOf]
  cases files.read path with
  | error failure => simp [Except.bind]
  | ok text => cases hvalue : Yaml.read? text <;> simp [Except.bind, hvalue]

/-- What the file of a library holds. -/
def reading (directory : String) (read : Reader) (source : String) :
    Except Failure (Fields Value) :=
  templatesOf (read (pathOf directory source))

/-- The path of a library leads to its file. -/
theorem hasText_pathOf {files : FileTree} {directory source text : String} :
    files.HasText (pathOf directory source) text ↔
      files.HasLibraryText directory (Text.trim source) text := by
  rw [FileTree.HasLibraryText, pathOf, External.defaultSource]
  split
  · exact files.hasText_join directory rfl
  · split
    · rename_i habsolute
      have hslash : Path.isAbsolute (Text.trim source) = true := beq_iff_eq.mpr habsolute
      rw [Path.join, if_pos hslash, FileTree.HasText, Path.start_eq_origin, FileTree.origin,
        if_pos hslash]
    · rename_i hrelative
      exact files.hasText_join directory (by simpa [Path.isAbsolute] using hrelative)

/-- Reading a library gives the templates in its file, and fails when there is no such file. -/
theorem reading_eq_ok_iff {files : FileTree} {directory source : String}
    {templates : Fields Value} :
    reading directory files.read source = .ok templates ↔
      files.HasLibrary directory (Text.trim source) templates := by
  have htemplates (value : Value) :
      (value.section? "templates").getD [] = value.libraryTemplates := by
    cases value with
    | mapping fields =>
      simp only [Value.section?, Value.field?, Value.mapping?, Value.libraryTemplates,
        Option.bind_some]
      cases Fields.get? fields "templates" with
      | none => rfl
      | some templates => cases templates <;> rfl
    | _ => rfl
  have hvalue : reading directory files.read source = .ok templates ↔
      ∃ value, files.HasValue (pathOf directory source) value ∧
        value.libraryTemplates = templates := by
    simp only [reading, templatesOf, ← valueOf_read_eq_ok_iff, htemplates]
    cases valueOf (files.read (pathOf directory source)) <;> simp [Except.map]
  rw [hvalue]
  simp only [FileTree.HasValue, FileTree.HasLibrary, hasText_pathOf]
  constructor
  · rintro ⟨value, ⟨text, htext, hread⟩, rfl⟩
    exact ⟨text, value, htext, hread, rfl⟩
  · rintro ⟨text, value, htext, hread, rfl⟩
    exact ⟨value, ⟨text, htext, hread⟩, rfl⟩

end Catalog

end PosterOverlay
