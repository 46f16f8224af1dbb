import PosterOverlay.Files.Tree
import PosterOverlay.Proofs.Text.Splitting

/-!
# Where paths lead

A path is walked name by name. Every name leads from a directory to one of its entries, and through
a link to what the link points at. The search for a file finds exactly what a path leads to, and
what is read is the text whose bytes the file holds. A path that is put behind a directory leads
where its names lead after those of the directory.
-/

namespace PosterOverlay

namespace Path

/-- The names between the slashes of a path. -/
def names (path : String) : List String :=
  (path.toList.splitOn '/').map String.ofList

/-- The directory that a path is seen from: the root for a path that opens with a slash, and
otherwise the one given. -/
def start (here : Place) (path : String) : Place :=
  match path.toList with
  | '/' :: _ => []
  | _ => here

theorem names_empty : names "" = [""] := rfl

theorem names_ne_nil (path : String) : names path ≠ [] := by
  rw [names, ne_eq, List.map_eq_nil_iff]
  exact List.splitOn_ne_nil '/' path.toList

/-- The parts of a path are the names in it. -/
theorem parts_eq_names (path : String) : parts path = names path := by
  have hslash : (['/'] : List Char) ≠ [] := List.cons_ne_nil _ _
  have hsplit (text : List Char) : Text.splitAll ['/'] text = text.splitOn '/' := by
    fun_induction Text.splitAll ['/'] text with
    | case1 text heq => exact absurd heq hslash
    | case2 text _ hnone =>
      have hwhole := (Text.splitOnce?_eq_none_iff hslash).mp hnone
      rw [List.singleton_infix_iff] at hwhole
      rw [List.splitOn_eq_singleton hwhole]
    | case3 text _ front tail hsome ih =>
      have hfront := Text.not_infix_of_splitOnce? hslash hsome
      rw [List.singleton_infix_iff] at hfront
      rw [← Text.append_of_splitOnce? hsome, ih, List.singleton_append,
        List.splitOn_append_cons_self_of_not_mem hfront]
  exact congrArg (List.map String.ofList) (hsplit path.toList)

/-- A path is seen from where it starts. -/
theorem start_eq_origin (here : Place) (path : String) :
    start here path = FileTree.origin here path := by
  unfold start FileTree.origin isAbsolute
  split
  · rename_i rest hslash
    simp [hslash]
  · rename_i hrelative
    rw [if_neg]
    intro habsolute
    obtain ⟨rest, hslash⟩ := List.head?_eq_some_iff.mp (beq_iff_eq.mp habsolute)
    exact hrelative rest hslash

/-- The names on both sides of a slash are those of the texts before and after it. -/
theorem names_append_slash (front back : String) :
    names (front ++ "/" ++ back) = names front ++ names back := by
  have hslash : (front ++ "/" ++ back).toList = front.toList ++ '/' :: back.toList := by
    simp
  rw [names, names, names, hslash, List.splitOn_append_cons_self, List.map_append]

/-- A relative path that is put behind a directory starts where the directory does. -/
theorem isAbsolute_join (directory : String) {path : String} (h : isAbsolute path = false) :
    isAbsolute (join directory path) = isAbsolute directory := by
  rw [join, h, if_neg Bool.false_ne_true]
  cases hdirectory : directory.toList with
  | nil =>
    rw [String.toList_eq_nil_iff] at hdirectory
    subst hdirectory
    have hempty : isAbsolute "" = false := rfl
    simp [h, hempty]
  | cons c rest =>
    split <;> simp [isAbsolute, hdirectory]

/-- A relative path that is put behind a directory has the names of both, except that an empty name
at the end of the directory is left out. -/
theorem names_join (directory : String) {path : String} (h : isAbsolute path = false) :
    names (join directory path) = names directory ++ names path ∨
      ∃ front, names directory = front ++ [""] ∧
        names (join directory path) = front ++ names path := by
  rw [join, h, if_neg Bool.false_ne_true]
  rcases List.eq_nil_or_concat directory.toList with hdirectory | ⟨front, c, hdirectory⟩
  · rw [String.toList_eq_nil_iff] at hdirectory
    subst hdirectory
    exact .inr ⟨[], rfl, by simp⟩
  · by_cases hc : c = '/'
    · subst hc
      have hfront : directory = String.ofList front ++ "/" := by
        rw [← String.toList_inj, hdirectory]
        simp
      have hnames := names_append_slash (String.ofList front)
      refine .inr ⟨names (String.ofList front), ?_, ?_⟩
      · simpa [← hfront, names_empty] using hnames ""
      · rw [if_neg (by simp [hdirectory]), hfront, hnames]
    · left
      rw [if_pos (by simp [hdirectory, hc]), names_append_slash]

end Path

namespace FileTree

variable {tree : FileTree} {links : Nat} {place target : Place} {names : List String}

/-- Names lead from one place to another through at most so many links. Wherever a name follows
there has to be a directory. The root is the directory above itself. -/
inductive Leads (tree : FileTree) : Nat → Place → List String → Place → Prop where
  /-- No name leads away. -/
  | done {links : Nat} {place : Place} : Leads tree links place [] place
  /-- An empty name and a dot stay in the directory. -/
  | stay {links : Nat} {place target : Place} {name : String} {names : List String}
      (hplace : tree.node? place = some .directory) (hname : name = "" ∨ name = ".")
      (hrest : Leads tree links place names target) : Leads tree links place (name :: names) target
  /-- Two dots lead to the directory above. -/
  | up {links : Nat} {place target : Place} {names : List String}
      (hplace : tree.node? place = some .directory)
      (hrest : Leads tree links place.dropLast names target) :
      Leads tree links place (".." :: names) target
  /-- The name of a file or of a directory leads to it. -/
  | enter {links : Nat} {place target : Place} {name : String} {names : List String}
      {node : FileNode} (hplace : tree.node? place = some .directory)
      (hname : name ∉ ["", ".", ".."]) (hnode : tree.node? (place ++ [name]) = some node)
      (hlink : ∀ path, node ≠ .link path)
      (hrest : Leads tree links (place ++ [name]) names target) :
      Leads tree links place (name :: names) target
  /-- The name of a link leads on with the names in the path of the link. -/
  | link {links : Nat} {place target : Place} {name path : String} {names : List String}
      (hplace : tree.node? place = some .directory) (hname : name ∉ ["", ".", ".."])
      (hnode : tree.node? (place ++ [name]) = some (.link path)) (hpath : path ≠ "")
      (hrest : Leads tree links (Path.start place path) (Path.names path ++ names) target) :
      Leads tree (links + 1) place (name :: names) target

theorem isDirectory_iff : tree.isDirectory place = true ↔ tree.node? place = some .directory := by
  unfold isDirectory
  split
  · rename_i h
    simp [h]
  · rename_i h
    simpa using h

/-- A walk leads where the names lead, if what it does behind a link is right for one link less. -/
theorem walk_eq_some_iff {jump : Place → List String → Option Place}
    (hjump : ∀ place names, jump place names = some target ↔
      ∃ fewer, links = fewer + 1 ∧ tree.Leads fewer place names target) :
    tree.walk jump place names = some target ↔ tree.Leads links place names target := by
  have hdirectory {place : Place} (h : ¬(!tree.isDirectory place) = true) :
      tree.node? place = some .directory := by
    simpa [isDirectory_iff] using h
  constructor
  · intro h
    fun_induction walk tree jump place names with
    | case1 place =>
      cases h
      exact .done
    | case2 => cases h
    | case3 place name rest hplace hname ih =>
      exact .stay (hdirectory hplace) (by simpa using hname) (ih h)
    | case4 place rest hplace hname ih => exact .up (hdirectory hplace) (ih h)
    | case5 => cases h
    | case6 => cases h
    | case7 place name rest hplace hname hup path hnode hpath =>
      obtain ⟨fewer, rfl, hrest⟩ := (hjump _ _).mp h
      rw [← Path.start_eq_origin, Path.parts_eq_names] at hrest
      exact .link (hdirectory hplace) (by simpa [hup] using hname) hnode hpath hrest
    | case8 place name rest hplace hname hup node hlink hnode ih =>
      exact .enter (hdirectory hplace) (by simpa [hup] using hname) hnode hlink (ih h)
  · intro h
    induction h with
    | done => rw [walk]
    | stay hplace hname hrest ih =>
      rw [walk, isDirectory_iff.mpr hplace, ih hjump]
      simp [hname]
    | up hplace hrest ih =>
      rw [walk, isDirectory_iff.mpr hplace, ih hjump]
      simp
    | @enter links place target name names node hplace hname hnode hlink hrest ih =>
      obtain ⟨hempty, hdot, hup⟩ : name ≠ "" ∧ name ≠ "." ∧ name ≠ ".." := by simpa using hname
      rw [walk, isDirectory_iff.mpr hplace, hnode, ih hjump]
      cases node with
      | link path => exact absurd rfl (hlink path)
      | _ => simp [hempty, hdot, hup]
    | @link links place target name path names hplace hname hnode hpath hrest ih =>
      obtain ⟨hempty, hdot, hup⟩ : name ≠ "" ∧ name ≠ "." ∧ name ≠ ".." := by simpa using hname
      have hbehind := (hjump _ _).mpr ⟨links, rfl, hrest⟩
      rw [Path.start_eq_origin, ← Path.parts_eq_names] at hbehind
      rw [walk, isDirectory_iff.mpr hplace, hnode]
      simp [hempty, hdot, hup, hpath, hbehind]

/-- The search gives the place that the names lead to, and none if they lead nowhere. -/
theorem follow_eq_some_iff :
    tree.follow links place names = some target ↔ tree.Leads links place names target := by
  induction links generalizing place names with
  | zero =>
    refine walk_eq_some_iff fun place names => ?_
    simp
  | succ links ih =>
    refine walk_eq_some_iff fun place names => ?_
    rw [ih]
    simp

/-- An empty name leads nowhere but from a directory, and stays there. -/
theorem walk_cons_empty (tree : FileTree) (jump : Place → List String → Option Place)
    (place : Place) (names : List String) :
    tree.walk jump place ("" :: names) =
      if tree.isDirectory place then tree.walk jump place names else none := by
  rw [walk]
  cases tree.isDirectory place <;> rfl

/-- A walk does not change by an empty name in front of another one, if what it does behind a link
does not. -/
theorem walk_append_empty (tree : FileTree) {jump : Place → List String → Option Place}
    (place : Place) (front : List String) {name : String} {rest : List String}
    (hjump : ∀ place front, jump place (front ++ "" :: name :: rest) =
      jump place (front ++ name :: rest)) :
    tree.walk jump place (front ++ "" :: name :: rest) =
      tree.walk jump place (front ++ name :: rest) := by
  induction front generalizing place with
  | nil =>
    rw [List.nil_append, List.nil_append, walk_cons_empty]
    split
    · rfl
    · rename_i hplace
      rw [walk]
      simp [hplace]
  | cons first front ih =>
    simp only [List.cons_append, walk, ih, ← List.append_assoc, hjump]

/-- An empty name in front of another one makes no difference. -/
theorem follow_append_empty (tree : FileTree) (links : Nat) (place : Place) (front : List String)
    {names : List String} (hnames : names ≠ []) :
    tree.follow links place (front ++ "" :: names) = tree.follow links place (front ++ names) := by
  obtain ⟨name, rest, rfl⟩ := List.exists_cons_of_ne_nil hnames
  induction links generalizing place front with
  | zero => exact tree.walk_append_empty place front fun _ _ => rfl
  | succ links ih => exact tree.walk_append_empty place front ih

/-! ### The text of a file -/

/-- Names lead from a place to a file that holds the bytes of a text. -/
def LeadsToText (tree : FileTree) (place : Place) (names : List String) (text : String) : Prop :=
  ∃ target, tree.Leads maxLinks place names target ∧
    tree.node? target = some (.file text.toUTF8)

/-- A path leads to a file that holds the bytes of a text. -/
def HasText (tree : FileTree) (path text : String) : Prop :=
  tree.LeadsToText (Path.start tree.here path) (Path.names path) text

theorem fromUTF8?_eq_some_iff {bytes : ByteArray} {text : String} :
    String.fromUTF8? bytes = some text ↔ bytes = text.toUTF8 := by
  constructor
  · intro h
    unfold String.fromUTF8? at h
    split at h
    · cases h
      rfl
    · cases h
  · rintro rfl
    unfold String.fromUTF8?
    rw [String.toUTF8_eq_toByteArray, dif_pos text.isValidUTF8]
    rfl

/-- An empty path leads to no file, as it stays in a directory. -/
theorem not_hasText_empty (tree : FileTree) (text : String) : ¬ tree.HasText "" text := by
  rintro ⟨target, hleads, hfile⟩
  rw [Path.names_empty, ← follow_eq_some_iff, maxLinks, follow, walk_cons_empty, walk] at hleads
  split at hleads
  · rename_i hplace
    cases hleads
    rw [isDirectory_iff.mp hplace] at hfile
    cases hfile
  · cases hleads

/-- What is read is the text of the file that the path leads to. -/
theorem read_eq_ok_iff {path text : String} :
    tree.read path = .ok text ↔ tree.HasText path text := by
  have hfind : tree.HasText path text ↔
      (tree.find? path).bind tree.node? = some (.file text.toUTF8) := by
    by_cases hpath : path = ""
    · subst hpath
      simp [not_hasText_empty, find?]
    · simp only [HasText, LeadsToText, find?, if_neg hpath, ← follow_eq_some_iff,
        Option.bind_eq_some_iff, Path.start_eq_origin, Path.parts_eq_names]
  rw [hfind, read]
  cases (tree.find? path).bind tree.node? with
  | none => simp
  | some node =>
    cases node with
    | file bytes =>
      rw [Option.some.injEq, FileNode.file.injEq, ← fromUTF8?_eq_some_iff]
      dsimp only
      cases String.fromUTF8? bytes <;> simp
    | _ => simp

/-- A path as seen from a directory leads from where the directory does, with the names of the
directory before its own. -/
theorem hasText_join (tree : FileTree) (directory : String) {path text : String}
    (hpath : Path.isAbsolute path = false) :
    tree.HasText (Path.join directory path) text ↔
      tree.LeadsToText (Path.start tree.here directory)
        (Path.names directory ++ Path.names path) text := by
  simp only [HasText, LeadsToText, ← follow_eq_some_iff, Path.start_eq_origin, origin,
    Path.isAbsolute_join directory hpath]
  rcases Path.names_join directory hpath with hnames | ⟨front, hdirectory, hnames⟩
  · rw [hnames]
  · rw [hnames, hdirectory, List.append_assoc, List.singleton_append]
    simp only [follow_append_empty _ _ _ _ (Path.names_ne_nil path)]

end FileTree

end PosterOverlay
