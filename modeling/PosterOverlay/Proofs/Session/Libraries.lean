import PosterOverlay.Proofs.Fields
import PosterOverlay.Proofs.Files.Library
import PosterOverlay.Session

/-!
# The libraries that a session keeps

What a catalog keeps is decided by the files alone: by those libraries which steps asked for since
the catalog was last cleared, and which had a file that could be read at that time. Of several
readings under one trimmed name the first one is kept, whatever happens to the file later. A library
that could not be read leaves no trace.
-/

namespace PosterOverlay

/-- The libraries that a document asks for: the one that it names, if there is any. -/
def Document.asked (document : Document) : List String :=
  (document.external?.map External.source).toList

/-- A document that is read from a value asks for the library that the value names. -/
theorem Document.asked_ofValue (value : Value) :
    (ofValue value).asked = value.namedLibrary?.toList := by
  cases value with
  | mapping fields =>
    simp only [asked, ofValue, Value.section?, Value.field?, Value.mapping?, Value.namedLibrary?,
      Option.bind_some]
    cases Fields.get? fields "external_templates" with
    | none => rfl
    | some external =>
      cases external with
      | mapping external =>
        simp only [Option.bind_some, Value.mapping?, Option.map_some, External.ofFields]
        cases Fields.get? external "default" with
        | none => rfl
        | some source => cases source <;> rfl
      | _ => rfl
  | _ => rfl

namespace Catalog

/-! ### One library -/

/-- The templates of a library under its trimmed name, when its file can be read. -/
def readings (directory : String) (read : Reader) (source : String) : Fields (Fields Value) :=
  match reading directory read source with
  | .ok templates => [(Text.trim source, templates)]
  | .error _ => []

/-- What is read is read under the trimmed name of the library. -/
theorem mem_readings_iff {directory : String} {files : FileTree} {source name : String}
    {templates : Fields Value} :
    (name, templates) ∈ readings directory files.read source ↔
      Text.trim source = name ∧ files.HasLibrary directory name templates := by
  have hreading : (name, templates) ∈ readings directory files.read source ↔
      Text.trim source = name ∧ reading directory files.read source = .ok templates := by
    rw [readings]
    cases reading directory files.read source <;> simp [eq_comm]
  rw [hreading]
  refine and_congr_right ?_
  rintro rfl
  exact reading_eq_ok_iff

/-- Blanks around its name do not matter to the path of a library. -/
theorem pathOf_trim (directory source : String) :
    pathOf directory (Text.trim source) = pathOf directory source := by
  rw [pathOf, pathOf, Text.trim_trim]

/-- A library is answered from what is kept, and otherwise from its file. A library that is not
kept yet and can be read is kept from now on. -/
theorem load_eq (catalog : Catalog) (read : Reader) (source : String) :
    catalog.load read source =
      match catalog.held.get? (Text.trim source), reading catalog.directory read source with
      | some templates, _ => (templates, catalog)
      | none, .ok templates =>
        (templates, { catalog with held := catalog.held ++ [(Text.trim source, templates)] })
      | none, .error _ => ([], catalog) := by
  rw [load, reading, pathOf_trim]
  cases hheld : catalog.held.get? (Text.trim source) with
  | some templates => rfl
  | none =>
    cases templatesOf (read (pathOf catalog.directory source)) with
    | error failure => rfl
    | ok templates => simp only [Fields.insert_of_get?_eq_none hheld]

/-- Asking for a library fills the catalog up with what can be read. -/
theorem load_snd (catalog : Catalog) (read : Reader) (source : String) :
    (catalog.load read source).2 =
      { catalog with
        held := Fields.extendNew catalog.held (readings catalog.directory read source) } := by
  rw [load_eq, readings]
  cases reading catalog.directory read source with
  | error failure => cases catalog.held.get? (Text.trim source) <;> rfl
  | ok now =>
    cases hheld : catalog.held.get? (Text.trim source) <;>
      simp [Fields.extendNew, Fields.insertNew, Fields.contains, hheld]

/-- A document fills the catalog up with the library that it asks for, if this can be read. -/
theorem expand_snd (catalog : Catalog) (read : Reader) (limits : Limits) (document : Document)
    (user : Variables) :
    (catalog.expand read limits document user).2 =
      { catalog with
        held := Fields.extendNew catalog.held
          (document.asked.flatMap (readings catalog.directory read)) } := by
  rw [expand, loadFor, Document.asked]
  cases document.external? with
  | none => rfl
  | some external =>
    dsimp only
    rw [load_snd]
    simp

end Catalog

namespace Session

/-! ### What steps read -/

/-- The files after a step. -/
def Step.filesAfter (files : FileTree) : Step → FileTree
  | .write path node => files.write path node
  | .remove path => files.remove path
  | _ => files

/-- The files after some steps. -/
def filesAfter (files : FileTree) (steps : List Step) : FileTree :=
  steps.foldl Step.filesAfter files

/-- A step asks for a library: by its name, or by a document that names it, which is given or stands
in a file. -/
inductive Step.Asks (files : FileTree) : Step → String → Prop where
  /-- Loading asks for the library. -/
  | load (source : String) : Asks files (.load source) source
  /-- Comparing two libraries asks for the first one. -/
  | first (first second : String) : Asks files (.same first second) first
  /-- Comparing two libraries asks for the second one. -/
  | second (first second : String) : Asks files (.same first second) second
  /-- Expanding a file asks for the library that the document in it names. -/
  | expandFile {path : String} {value : Value} {source : String} (user : Variables)
      (hvalue : files.HasValue path value) (hsource : value.namedLibrary? = some source) :
      Asks files (.expandFile path user) source
  /-- So does expanding it for a preview. -/
  | preview {path : String} {value : Value} {source : String} (user : Variables)
      (hvalue : files.HasValue path value) (hsource : value.namedLibrary? = some source) :
      Asks files (.preview path user) source
  /-- Expanding a document asks for the library that it names. -/
  | expand {document : Document} {external : External} (user : Variables)
      (hexternal : document.external? = some external) :
      Asks files (.expand document user) external.source

/-- A step reads templates under a name: it asks for the library of this name, with or without blanks
around it, and these are the templates in the file of the library. -/
def Step.Reads (directory : String) (files : FileTree) (step : Step) (name : String)
    (templates : Fields Value) : Prop :=
  (∃ source, step.Asks files source ∧ Text.trim source = name) ∧
    files.HasLibrary directory name templates

/-- Some step since the catalog was last cleared has a property, which may depend on the steps
before it. -/
def SinceClear (steps : List Step) (p : List Step → Step → Prop) : Prop :=
  ∃ front step back, steps = front ++ step :: back ∧ .clear ∉ step :: back ∧ p front step

/-- Some step since the catalog was last cleared has read these templates under the name. -/
def WasRead (directory : String) (files : FileTree) (steps : List Step) (name : String)
    (templates : Fields Value) : Prop :=
  SinceClear steps fun front step =>
    step.Reads directory (filesAfter files front) name templates

/-- Some step since the catalog was last cleared has read these templates under the name, and no
earlier one has read any. -/
def FirstRead (directory : String) (files : FileTree) (steps : List Step) (name : String)
    (templates : Fields Value) : Prop :=
  SinceClear steps fun front step =>
    step.Reads directory (filesAfter files front) name templates ∧
      ∀ earlier, ¬ WasRead directory files front name earlier

/-- With one more step this step counts too, and none if it clears the catalog. -/
theorem sinceClear_append_singleton {steps : List Step} {step : Step}
    {p : List Step → Step → Prop} :
    SinceClear (steps ++ [step]) p ↔ step ≠ .clear ∧ (SinceClear steps p ∨ p steps step) := by
  constructor
  · rintro ⟨front, taken, back, hsplit, hclear, hp⟩
    rcases List.eq_nil_or_concat back with rfl | ⟨back, last, rfl⟩
    · obtain ⟨rfl, hlast⟩ := List.append_inj' hsplit rfl
      cases hlast
      exact ⟨fun h => hclear (by simp [h]), .inr hp⟩
    · rw [List.concat_eq_append, ← List.cons_append, ← List.append_assoc] at hsplit
      obtain ⟨rfl, hlast⟩ := List.append_inj' hsplit rfl
      cases hlast
      rw [List.concat_eq_append, ← List.cons_append, List.mem_append, not_or] at hclear
      exact ⟨fun h => hclear.2 (by simp [h]), .inl ⟨front, taken, back, rfl, hclear.1, hp⟩⟩
  · rintro ⟨hstep, ⟨front, taken, back, rfl, hclear, hp⟩ | hp⟩
    · refine ⟨front, taken, back ++ [step], by simp, ?_, hp⟩
      rw [← List.cons_append, List.mem_append, not_or]
      exact ⟨hclear, by simpa using hstep.symm⟩
    · exact ⟨steps, step, [], rfl, by simpa using hstep.symm, hp⟩

/-- One more step is the first to read a library if none before it has. -/
theorem firstRead_append_singleton {directory : String} {files : FileTree} {steps : List Step}
    {step : Step} {name : String} {templates : Fields Value} :
    FirstRead directory files (steps ++ [step]) name templates ↔
      step ≠ .clear ∧ (FirstRead directory files steps name templates ∨
        step.Reads directory (filesAfter files steps) name templates ∧
          ∀ earlier, ¬ WasRead directory files steps name earlier) :=
  sinceClear_append_singleton

/-- A library that was read was read by some step first. -/
theorem exists_firstRead_iff {directory : String} {files : FileTree} {steps : List Step}
    {name : String} :
    (∃ templates, FirstRead directory files steps name templates) ↔
      ∃ templates, WasRead directory files steps name templates := by
  constructor
  · rintro ⟨templates, front, step, back, hsplit, hclear, hreads, -⟩
    exact ⟨templates, front, step, back, hsplit, hclear, hreads⟩
  · rintro ⟨templates, hread⟩
    induction steps using List.reverseRecOn generalizing templates with
    | nil =>
      obtain ⟨front, step, back, hsplit, -⟩ := hread
      simp at hsplit
    | append_singleton steps step ih =>
      obtain ⟨hstep, hread⟩ := sinceClear_append_singleton.mp hread
      by_cases hearlier : ∃ earlier, WasRead directory files steps name earlier
      · obtain ⟨earlier, hearlier⟩ := hearlier
        obtain ⟨first, hfirst⟩ := ih earlier hearlier
        exact ⟨first, sinceClear_append_singleton.mpr ⟨hstep, .inl hfirst⟩⟩
      · rw [not_exists] at hearlier
        have hnow := hread.resolve_left (hearlier templates)
        exact ⟨templates, sinceClear_append_singleton.mpr ⟨hstep, .inr ⟨hnow, hearlier⟩⟩⟩

/-! ### What is kept -/

/-- The libraries that a step asks for while the files are as given. -/
def Step.asked (files : FileTree) : Step → List String
  | .load source => [source]
  | .same first second => [first, second]
  | .expandFile path _ | .preview path _ =>
    match Catalog.valueOf (files.read path) with
    | .ok value => (Document.ofValue value).asked
    | .error _ => []
  | .expand document _ => document.asked
  | _ => []

theorem Step.mem_asked_iff {files : FileTree} {step : Step} {source : String} :
    source ∈ step.asked files ↔ step.Asks files source := by
  have hfile (path : String) : (source ∈ match Catalog.valueOf (files.read path) with
      | .ok value => (Document.ofValue value).asked
      | .error _ => []) ↔
      ∃ value, files.HasValue path value ∧ value.namedLibrary? = some source := by
    simp only [← Catalog.valueOf_read_eq_ok_iff]
    cases Catalog.valueOf (files.read path) <;> simp [Document.asked_ofValue]
  constructor
  · intro h
    cases step with
    | load asked =>
      rw [List.mem_singleton.mp h]
      exact .load asked
    | same first second =>
      rcases List.mem_cons.mp h with rfl | h
      · exact .first source second
      · rw [List.mem_singleton.mp h]
        exact .second first second
    | expandFile path user =>
      obtain ⟨value, hvalue, hsource⟩ := (hfile path).mp h
      exact .expandFile user hvalue hsource
    | preview path user =>
      obtain ⟨value, hvalue, hsource⟩ := (hfile path).mp h
      exact .preview user hvalue hsource
    | expand document user =>
      obtain ⟨external, hexternal, rfl⟩ := Option.map_eq_some_iff.mp (Option.mem_toList.mp h)
      exact .expand user hexternal
    | _ => cases h
  · intro h
    cases h with
    | expandFile user hvalue hsource => exact (hfile _).mpr ⟨_, hvalue, hsource⟩
    | preview user hvalue hsource => exact (hfile _).mpr ⟨_, hvalue, hsource⟩
    | expand user hexternal => simp [asked, Document.asked, hexternal]
    | _ => simp [asked]

/-- The libraries that can be read among those that a step asks for, under their trimmed names. -/
def Step.readings (directory : String) (files : FileTree) (step : Step) : Fields (Fields Value) :=
  (step.asked files).flatMap (Catalog.readings directory files.read)

theorem Step.mem_readings_iff {directory : String} {files : FileTree} {step : Step} {name : String}
    {templates : Fields Value} :
    (name, templates) ∈ step.readings directory files ↔
      step.Reads directory files name templates := by
  simp only [readings, List.mem_flatMap, Catalog.mem_readings_iff, mem_asked_iff, Reads]
  tauto

theorem Step.get?_readings {directory : String} {files : FileTree} {step : Step} {name : String}
    {templates : Fields Value} :
    (step.readings directory files).get? name = some templates ↔
      step.Reads directory files name templates := by
  constructor
  · intro h
    exact mem_readings_iff.mp (Fields.mem_of_get? h)
  · intro h
    have hname := List.mem_map_of_mem (f := Prod.fst) (mem_readings_iff.mpr h)
    rw [← Fields.names, ← Fields.contains_iff_mem_names] at hname
    obtain ⟨found, hfound⟩ := Option.isSome_iff_exists.mp hname
    obtain ⟨-, hlibrary⟩ := mem_readings_iff.mp (Fields.mem_of_get? hfound)
    -- Under one name there is one file, which is read in one way.
    obtain ⟨⟨source, -, rfl⟩, hreads⟩ := h
    rw [← Catalog.reading_eq_ok_iff] at hlibrary hreads
    rw [hfound, Except.ok.inj (hlibrary.symm.trans hreads)]

/-- The session after some steps. -/
def finish (session : Session) (steps : List Step) : Session :=
  steps.foldl (fun session step => (session.step step).2) session

/-- The document in a file fills the catalog up with the library that it asks for. -/
theorem expandFile_snd (catalog : Catalog) (files : FileTree) (limits : Limits) (path : String)
    (user : Variables) :
    (catalog.expandFile files.read limits path user).2 =
      { catalog with
        held := catalog.held.extendNew
          ((Step.expandFile path user).readings catalog.directory files) } := by
  rw [Catalog.expandFile, Step.readings, Step.asked]
  cases Catalog.valueOf (files.read path) with
  | error failure => rfl
  | ok value => exact Catalog.expand_snd ..

/-- A step that does not clear the catalog fills it up with what it reads. It changes the files as
it says, and nothing else. -/
theorem step_snd (session : Session) {step : Step} (h : step ≠ .clear) :
    (session.step step).2 =
      { session with
        files := step.filesAfter session.files
        catalog :=
          { session.catalog with
            held := session.catalog.held.extendNew
              (step.readings session.catalog.directory session.files) } } := by
  cases step with
  | load source =>
    simp [Session.step, after, Catalog.load_snd, Step.readings, Step.asked, Step.filesAfter]
  | same first second =>
    simp [Session.step, after, sameLibrary, Catalog.load_snd, Step.readings, Step.asked,
      Step.filesAfter, Fields.extendNew]
  | expandFile path user => rw [Session.step, after, expandFile_snd]; rfl
  | preview path user => rw [Session.step, after, expandFile_snd]; rfl
  | expand document user => rw [Session.step, after, Catalog.expand_snd]; rfl
  | clear => exact absurd rfl h
  | _ => rfl

/-- A session that has opened some files and then taken some steps: it knows the files as they are
now, and of every library that was read it keeps the first reading. -/
structure Keeps (files : FileTree) (directory : String) (steps : List Step) (session : Session) :
    Prop where
  /-- The files are those that the steps have left. -/
  files_eq : session.files = filesAfter files steps
  /-- The directory of the libraries does not change. -/
  directory_eq : session.catalog.directory = directory
  /-- No name is kept twice. -/
  distinct : session.catalog.held.Distinct
  /-- What is kept under a name was read first. -/
  get?_held (name : String) (templates : Fields Value) :
    session.catalog.held.get? name = some templates ↔
      FirstRead directory files steps name templates

section

variable {files : FileTree} {directory : String} {steps : List Step} {session : Session}

/-- Nothing is kept under a name exactly when nothing was read. -/
theorem Keeps.get?_eq_none_iff (h : Keeps files directory steps session) (name : String) :
    session.catalog.held.get? name = none ↔
      ∀ templates, ¬ WasRead directory files steps name templates := by
  rw [← not_exists, ← exists_firstRead_iff, not_exists, Option.eq_none_iff_forall_ne_some]
  exact forall_congr' fun templates => not_congr (h.get?_held name templates)

/-- After one more step this step counts too. -/
theorem Keeps.step (h : Keeps files directory steps session) (step : Step) :
    Keeps files directory (steps ++ [step]) (session.step step).2 := by
  have hfiles : filesAfter files (steps ++ [step]) = step.filesAfter session.files := by
    rw [h.files_eq]
    exact List.foldl_append
  by_cases hclear : step = .clear
  · subst hclear
    refine ⟨hfiles.symm, h.directory_eq, Fields.distinct_nil, fun name templates => ?_⟩
    rw [firstRead_append_singleton]
    simp [Session.step, after, Catalog.clear]
  · rw [step_snd session hclear]
    refine ⟨hfiles.symm, h.directory_eq, h.distinct.extendNew _, fun name templates => ?_⟩
    rw [Fields.get?_extendNew, Option.or_eq_some_iff, h.get?_held, h.get?_eq_none_iff,
      h.directory_eq, h.files_eq, Step.get?_readings, firstRead_append_singleton,
      and_comm (b := step.Reads _ _ _ _)]
    exact (and_iff_right hclear).symm

end

/-- A session that keeps no library yet. -/
def opened (files : FileTree) (directory : String) (limits : Limits) : Session :=
  ⟨files, .inDirectory directory, limits⟩

/-- However many steps a session takes, it keeps what they read first. -/
theorem keeps_finish (files : FileTree) (directory : String) (limits : Limits)
    (steps : List Step) :
    Keeps files directory steps ((opened files directory limits).finish steps) := by
  induction steps using List.reverseRecOn with
  | nil =>
    refine ⟨rfl, rfl, Fields.distinct_nil, fun name templates => iff_of_false nofun ?_⟩
    rintro ⟨front, step, back, hsplit, -⟩
    simp at hsplit
  | append_singleton steps step ih =>
    rw [finish, List.foldl_append]
    exact ih.step step

/-- A library is kept exactly when some step has read it since the catalog was last cleared. Then it
is answered as it was first read, whatever was written since. Otherwise it is answered from its file
as this is now, and kept from then on; if there is no such file the answer is empty and nothing
changes. There are as many libraries kept as trimmed names were read. -/
theorem libraries_after (files : FileTree) (directory : String) (limits : Limits)
    (steps : List Step) (source : String) :
    let session := (opened files directory limits).finish steps
    let name := Text.trim source
    session.files = filesAfter files steps ∧
    (session.catalog.holds source = true ↔
      ∃ templates, WasRead directory files steps name templates) ∧
    (session.catalog.holds source = true →
      ∃ templates, FirstRead directory files steps name templates) ∧
    (∀ templates, FirstRead directory files steps name templates →
      session.step (.load source) = (.templates templates, session)) ∧
    (session.catalog.holds source = false →
      (∀ templates, session.files.HasLibrary directory name templates →
        session.step (.load source) = (.templates templates,
          { session with catalog :=
            { session.catalog with held := session.catalog.held ++ [(name, templates)] } })) ∧
      ((∀ templates, ¬ session.files.HasLibrary directory name templates) →
        session.step (.load source) = (.templates [], session))) ∧
    ∃ names : List String, names.Nodup ∧
      (∀ other, other ∈ names ↔ ∃ templates, WasRead directory files steps other templates) ∧
      session.catalog.size = names.length := by
  intro session name
  have hkeeps : Keeps files directory steps session := keeps_finish files directory limits steps
  have hnames (other : String) : session.catalog.held.contains other = true ↔
      ∃ templates, WasRead directory files steps other templates := by
    rw [Fields.contains, Option.isSome_iff_exists, ← exists_firstRead_iff]
    simp only [hkeeps.get?_held]
  have hreading (templates : Fields Value) :
      Catalog.reading session.catalog.directory session.files.read source = .ok templates ↔
        session.files.HasLibrary directory name templates := by
    rw [hkeeps.directory_eq]
    exact Catalog.reading_eq_ok_iff
  have hload : session.step (.load source) =
      session.after .templates (session.catalog.load session.files.read source) := rfl
  rw [Catalog.load_eq] at hload
  refine ⟨hkeeps.files_eq, hnames name, ?_, ?_, ?_, ?_⟩
  · intro hholds
    exact exists_firstRead_iff.mpr ((hnames name).mp hholds)
  · intro templates hfirst
    rw [← hkeeps.get?_held] at hfirst
    rw [hload, hfirst]
    rfl
  · intro hholds
    have hnone : session.catalog.held.get? name = none := by
      simpa [Catalog.holds, Fields.contains] using hholds
    rw [hload, hnone]
    simp only [← hreading]
    cases Catalog.reading session.catalog.directory session.files.read source with
    | error failure =>
      refine ⟨fun templates hfound => ?_, fun _ => rfl⟩
      cases hfound
    | ok found =>
      refine ⟨fun templates hfound => ?_, fun hmissing => absurd rfl (hmissing found)⟩
      cases hfound
      rfl
  · refine ⟨session.catalog.held.names, hkeeps.distinct, fun other => ?_, ?_⟩
    · rw [← Fields.contains_iff_mem_names, hnames]
    · rw [Catalog.size, Fields.names, List.length_map]

/-- A library, named by a path from the root, is asked for before its file is there, written, read
for a document that names it with blanks around, and written anew. It is still answered as it was
read, until the catalog is cleared. Another library, which has no file, is answered with nothing. -/
theorem libraries_after_shared :
    let library (badge : String) : FileNode := .file ("templates:\n  badge: " ++ badge).toUTF8
    let badge (templates : Fields Value) : Option String :=
      (templates.get? "badge").bind Value.string?
    let document : Fields Value :=
      [("external_templates", .mapping [("default", .string " /shared.yml ")])]
    let steps : List Step :=
      [.load "/shared.yml", .write "/shared.yml" (library "old"),
        .expand (.ofValue (.mapping document)) [], .write "/shared.yml" (library "new")]
    let kept := (opened .empty "lib" .standard).finish steps
    let cleared := (opened .empty "lib" .standard).finish (steps ++ [.clear])
    (∃ old, FirstRead "lib" .empty steps "/shared.yml" old ∧ badge old = some "old" ∧
      kept.step (.load "/shared.yml") = (.templates old, kept)) ∧
    (∃ new, cleared.files.HasLibrary "lib" "/shared.yml" new ∧ badge new = some "new" ∧
      (cleared.step (.load "/shared.yml")).1 = .templates new) ∧
    kept.step (.load "other.yml") = (.templates [], kept) := by
  intro library badge document steps kept cleared
  have hkept := libraries_after .empty "lib" .standard steps "/shared.yml"
  have hcleared := libraries_after .empty "lib" .standard (steps ++ [.clear]) "/shared.yml"
  have hother := libraries_after .empty "lib" .standard steps "other.yml"
  have htrim : Text.trim "/shared.yml" = "/shared.yml" := by decide +kernel
  rw [htrim] at hkept hcleared
  refine ⟨?_, ?_, ?_⟩
  · obtain ⟨old, hold⟩ := hkept.2.2.1 (by decide +kernel)
    have hstep := hkept.2.2.2.1 old hold
    have hbadge : badge (kept.catalog.load kept.files.read "/shared.yml").1 = some "old" := by
      decide +kernel
    rw [Answer.templates.inj (congrArg Prod.fst hstep)] at hbadge
    exact ⟨old, hold, hbadge, hstep⟩
  · have hbadge : (Catalog.reading "lib" cleared.files.read "/shared.yml").toOption.bind badge =
        some "new" := by
      decide +kernel
    obtain ⟨new, hread, hnew⟩ := Option.bind_eq_some_iff.mp hbadge
    have hlibrary : cleared.files.HasLibrary "lib" "/shared.yml" new := by
      rw [← htrim, ← Catalog.reading_eq_ok_iff]
      revert hread
      cases Catalog.reading "lib" cleared.files.read "/shared.yml" <;> simp [Except.toOption]
    have hstep := (hcleared.2.2.2.2.1 (by decide +kernel)).1 new hlibrary
    exact ⟨new, hlibrary, hnew, congrArg Prod.fst hstep⟩
  · refine (hother.2.2.2.2.1 (by decide +kernel)).2 fun templates hlibrary => ?_
    have hfails : (Catalog.reading "lib" kept.files.read "other.yml").toOption.isNone = true := by
      decide +kernel
    rw [← Catalog.reading_eq_ok_iff] at hlibrary
    rw [hlibrary] at hfails
    cases hfails

end Session

end PosterOverlay
