import PosterOverlay.Text.Digits
import PosterOverlay.Yaml.Cursor

/-!
# Block scalars

A block scalar follows a header line and takes in all lines that are indented deeply enough. A
literal one keeps its line breaks; a folded one joins lines that do not start with a blank. The
header may fix the indentation and says what happens to the line breaks at the end.
-/

namespace PosterOverlay.Yaml.Block

/-- What happens to the line breaks at the end. -/
inductive Chomping where
  /-- All are dropped. -/
  | strip
  /-- One is kept. -/
  | clip
  /-- All are kept. -/
  | keep
  deriving DecidableEq

/-- The first line of a block scalar. -/
structure Header where
  /-- What happens to the line breaks at the end. -/
  chomping : Chomping
  /-- The indentation below that of the parent, when it is fixed. -/
  increment? : Option Nat

/-- Reads an indicator of what happens to the line breaks at the end. -/
def chomping? (cursor : Cursor) : Option (Chomping × Cursor) :=
  if cursor.isAt '+' then some (.keep, cursor.advance 1)
  else if cursor.isAt '-' then some (.strip, cursor.advance 1)
  else none

/-- Reads a digit of indentation if there is one; zero is refused. -/
def increment? (cursor : Cursor) : Option (Option Nat × Cursor) :=
  match cursor.at? 0 with
  | some c =>
    if c == '0' then none
    else if c.isDigit then some (Text.digitValue? c, cursor.advance 1)
    else some (none, cursor)
  | none => some (none, cursor)

/-- Reads the two indicators in either order. -/
def indicators? (cursor : Cursor) : Option (Header × Cursor) :=
  match chomping? cursor with
  | some (chomping, next) => (increment? next).map fun (increment, next) =>
      (⟨chomping, increment⟩, next)
  | none => (increment? cursor).map fun (increment, next) =>
      match increment, chomping? next with
      | some _, some (chomping, next) => (⟨chomping, increment⟩, next)
      | _, _ => (⟨.clip, increment⟩, next)

/-- Reads the header line after its first character. -/
def header? (cursor : Cursor) : Option (Header × Cursor) := do
  let (header, next) ← indicators? cursor
  let next := (next.skipRun isBlank).skipComment
  if next.isLineEnd then return (header, next.skipBreak) else none

/-- The state in which the line breaks before a line are read. -/
structure Breaks where
  /-- The line breaks, last one first. -/
  breaks : List Char
  /-- The deepest indentation met. -/
  deepest : Nat

/-- Reads indentation and empty lines. With an indentation given only that many spaces belong to
it. A tab in place of indentation is refused. -/
def breaks? (indent? : Option Nat) (state : Breaks) (cursor : Cursor) : Option (Breaks × Cursor) :=
  let spaces := (cursor.run (· == ' ')).1.length
  let count := match indent? with
    | some indent => min spaces (indent - cursor.column)
    | none => spaces
  let next := cursor.advance count
  let state := { state with deepest := max state.deepest next.column }
  let isShallow := match indent? with
    | some indent => next.column < indent
    | none => true
  if isShallow && next.isAt '\t' then none
  else
    match _h : next.lineBreak? with
    | some (c, after) => breaks? indent? { state with breaks := c :: state.breaks } after
    | none => some (state, next)
termination_by cursor.rest.length
decreasing_by
  have := Cursor.lineBreak?_length _h
  simp only [next, Cursor.advance, List.length_drop] at this
  omega

/-- The lines read so far. -/
structure Lines where
  /-- The text, last character first. -/
  text : List Char
  /-- The line break of the last line. -/
  lastBreak? : Option Char
  /-- The line breaks of the empty lines after it, last one first. -/
  empty : List Char
  /-- Whether the last line started with a blank. -/
  blankBefore : Bool

/-- The text up to the start of the next line, which starts with a blank or not. -/
def Lines.joined (lines : Lines) (literal blankHere : Bool) : List Char :=
  if !literal && lines.lastBreak? == some '\n' && !lines.blankBefore && !blankHere then
    if lines.empty.isEmpty then ' ' :: lines.text else lines.empty ++ lines.text
  else lines.empty ++ lines.lastBreak?.toList ++ lines.text

/-- Reads lines as long as they are indented. -/
def lines? (literal : Bool) (indent : Nat) :
    List Char → Lines → Cursor → Option (Lines × Cursor)
  | [], _, _ => none
  | _ :: rounds, lines, cursor =>
    if cursor.column ≠ indent ∨ cursor.rest.isEmpty then some (lines, cursor)
    else do
      let blankHere := cursor.satisfies 0 isBlank
      let (content, next) := cursor.run fun c => !isBreak c
      let text := content.reverse ++ lines.joined literal blankHere
      let (lastBreak?, next) := match next.lineBreak? with
        | some (c, next) => (some c, next)
        | none => (none, next)
      let (state, next) ← breaks? (some indent) ⟨[], 0⟩ next
      lines? literal indent rounds ⟨text, lastBreak?, state.breaks, blankHere⟩ next

/-- Reads the block scalar that starts here: its text, last character first. `parent` is the
indentation of the block around it. -/
def scan? (literal : Bool) (parent : Int) (cursor : Cursor) : Option (List Char × Cursor) := do
  let (header, next) ← header? (cursor.advance 1)
  let fixed? := header.increment?.map fun increment => parent.toNat + increment
  let (state, next) ← breaks? fixed? ⟨[], 0⟩ next
  let indent := fixed?.getD (max (max state.deepest (parent + 1).toNat) 1)
  let (lines, next) ←
    lines? literal indent next.rounds ⟨[], none, state.breaks, false⟩ next
  let text := match header.chomping with
    | .strip => lines.text
    | .clip => lines.lastBreak?.toList ++ lines.text
    | .keep => lines.empty ++ lines.lastBreak?.toList ++ lines.text
  return (text, next)

end PosterOverlay.Yaml.Block
