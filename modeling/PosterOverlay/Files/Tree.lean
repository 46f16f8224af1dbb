import PosterOverlay.Failure
import PosterOverlay.Files.Path

/-!
# A tree of files

Files, directories and links below the root, in which paths are looked up. Every node is kept under
the names that lead to it. A path that opens with a slash is seen from the root, any other one from
the working directory. Links are followed wherever they stand in a path, up to a bounded number of
them.
-/

namespace PosterOverlay

/-- What stands in a tree of files. -/
inductive FileNode where
  /-- A file with its bytes. -/
  | file (bytes : ByteArray)
  /-- A directory. -/
  | directory
  /-- A link to a path, which is seen from the directory of the link. -/
  | link (target : String)

/-- The names that lead from the root of a tree to a node. -/
abbrev Place := List String

/-- A tree of files. -/
structure FileTree where
  /-- The nodes below the root. -/
  nodes : List (Place × FileNode)
  /-- The working directory. -/
  here : Place

namespace FileTree

/-- A tree without files, in which the working directory stands alone. -/
def empty : FileTree := ⟨[(["work"], .directory)], ["work"]⟩

/-- The directory that a path is seen from: the root, or the one given if the path is relative. -/
def origin (here : Place) (path : String) : Place :=
  if Path.isAbsolute path then [] else here

/-- The node at a place; the root is a directory. -/
def node? (tree : FileTree) (place : Place) : Option FileNode :=
  if place.isEmpty then some .directory else tree.nodes.lookup place

/-- Whether there is a directory at the place. -/
def isDirectory (tree : FileTree) (place : Place) : Bool :=
  match tree.node? place with
  | some .directory => true
  | _ => false

/-- Puts a node at a place, over the one that is there. -/
def put (tree : FileTree) (place : Place) (node : FileNode) : FileTree :=
  { tree with nodes := tree.nodes.filter (fun entry => entry.1 != place) ++ [(place, node)] }

/-- Removes the node at a place. -/
def erase (tree : FileTree) (place : Place) : FileTree :=
  { tree with nodes := tree.nodes.filter fun entry => entry.1 != place }

/-- The names of the nodes in a directory. -/
def children (tree : FileTree) (place : Place) : List String :=
  tree.nodes.filterMap fun entry =>
    if entry.1.dropLast = place then entry.1.getLast? else none

/-- The place that the parts of a path lead to from a directory, where `jump` leads on from the path
of a link that is met. The root is the directory above itself. -/
def walk (tree : FileTree) (jump : Place → List String → Option Place) :
    Place → List String → Option Place
  | place, [] => some place
  | place, part :: rest =>
    if !tree.isDirectory place then none
    else if part = "" || part = "." then walk tree jump place rest
    else if part = ".." then walk tree jump place.dropLast rest
    else
      match tree.node? (place ++ [part]) with
      | none => none
      | some (.link target) =>
        if target = "" then none else jump (origin place target) (Path.parts target ++ rest)
      | some _ => walk tree jump (place ++ [part]) rest

/-- The place that the parts of a path lead to from a directory, with at most so many links followed
on the way. -/
def follow (tree : FileTree) : Nat → Place → List String → Option Place
  | 0 => tree.walk fun _ _ => none
  | links + 1 => tree.walk (tree.follow links)

/-- How many links a path may lead through. -/
def maxLinks : Nat := 40

/-- The place that a path leads to. -/
def find? (tree : FileTree) (path : String) : Option Place :=
  if path = "" then none else tree.follow maxLinks (origin tree.here path) (Path.parts path)

/-- The text of the file that a path leads to. -/
def read (tree : FileTree) (path : String) : Except Failure String :=
  match (tree.find? path).bind tree.node? with
  | some (.file bytes) =>
    match String.fromUTF8? bytes with
    | some text => .ok text
    | none => .error (.unreadable path "stream did not contain valid UTF-8")
  | some _ => .error (.unreadable path "Is a directory (os error 21)")
  | none => .error (.missing path)

/-- The parts of a path that lead somewhere. -/
def steps (path : String) : List String :=
  (Path.parts path).filter fun part => part != "" && part != "."

/-- Goes where the parts of a path lead from a directory, through links, and makes a directory of
every place on the way that holds nothing yet. Gives the place reached. -/
def makeDirectories (tree : FileTree) (place : Place) : List String → FileTree × Place
  | [] => (tree, place)
  | part :: rest =>
    match tree.follow maxLinks place [part] with
    | some next => makeDirectories tree next rest
    | none => makeDirectories (tree.put (place ++ [part]) .directory) (place ++ [part]) rest

/-- Puts a node where a path leads, with the directories on the way. A file is written through a
link; a directory that is there already stays. -/
def write (tree : FileTree) (path : String) (node : FileNode) : FileTree :=
  let (tree, directory) := tree.makeDirectories (origin tree.here path) (steps path).dropLast
  match (steps path).getLast? with
  | none => tree
  | some name =>
    match node with
    | .directory => (tree.makeDirectories directory [name]).1
    | _ => tree.put ((tree.follow maxLinks directory [name]).getD (directory ++ [name])) node

/-- Removes the file or link that a path names. A directory stays. -/
def remove (tree : FileTree) (path : String) : FileTree :=
  match tree.follow maxLinks (origin tree.here path) (steps path).dropLast,
    (steps path).getLast? with
  | some directory, some name =>
    if tree.isDirectory (directory ++ [name]) then tree else tree.erase (directory ++ [name])
  | _, _ => tree

/-- The files in the directory at a place and below it, `path` being a path to that place. A link
to one of the directories around it, which are given with the innermost first, is not entered. The
walk goes at most `depth` directories deep. -/
def filesBelow (tree : FileTree) : Nat → List Place → String → Place → List String
  | 0, _, _, _ => []
  | depth + 1, around, path, place =>
    (tree.children place).flatMap fun name =>
      let inner := Path.join path name
      match tree.follow maxLinks place [name] with
      | none => []
      | some target =>
        if !tree.isDirectory target then [inner]
        else if target != place ++ [name] && (place :: around).contains target then []
        else tree.filesBelow depth (place :: around) inner target

/-- The paths of all files at or below a path, links followed. No walk is deeper than the bound: on
its way each link leads to a directory not yet entered by it, and from there at most as many
directories lie inside each other as there are nodes. -/
def files (tree : FileTree) (path : String) : List String :=
  match tree.find? path with
  | none => []
  | some place =>
    if tree.isDirectory place then
      tree.filesBelow ((tree.nodes.length + 1) * (tree.nodes.length + 1)) [] path place
    else [path]

end FileTree

end PosterOverlay
