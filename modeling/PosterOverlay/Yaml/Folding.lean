import PosterOverlay.Yaml.Cursor

/-!
# Folding of lines

Inside plain and quoted scalars a stretch of blanks and line breaks is folded: blanks alone stay,
a single line break becomes a space, and of several line breaks the first is dropped.
-/

namespace PosterOverlay.Yaml

/-- A stretch of blanks and line breaks. -/
structure Gap where
  /-- The blanks before the first line break, last one first. -/
  blanks : List Char
  /-- Whether a line has ended. -/
  broken : Bool
  /-- The first line break, unless it was escaped. -/
  first? : Option Char
  /-- The further line breaks, last one first. -/
  later : List Char

namespace Gap

/-- No gap. -/
def empty : Gap := ⟨[], false, none, []⟩

/-- The gap that an escaped line break opens. -/
def escaped : Gap := ⟨[], true, none, []⟩

/-- The gap with one more blank; those after a line break do not count. -/
def addBlank (gap : Gap) (c : Char) : Gap :=
  if gap.broken then gap else { gap with blanks := c :: gap.blanks }

/-- The gap with one more line break. -/
def addBreak (gap : Gap) (c : Char) : Gap :=
  if gap.broken then { gap with later := c :: gap.later } else ⟨[], true, some c, []⟩

/-- The text that stands for the gap, last character first. -/
def folded (gap : Gap) : List Char :=
  if gap.broken then
    match gap.first? with
    | some '\n' => if gap.later.isEmpty then [' '] else gap.later
    | some c => gap.later ++ [c]
    | none => gap.later
  else gap.blanks

/-- Reads the blanks and line breaks here into the gap. A tab that indents a line before the
column `floor` is refused. -/
def read? (floor : Nat) (gap : Gap) (cursor : Cursor) : Option (Gap × Cursor) :=
  match _hbreak : cursor.lineBreak? with
  | some (c, next) => read? floor (gap.addBreak c) next
  | none =>
    match _hblank : cursor.blank? with
    | some (c, next) =>
      if c == '\t' && gap.broken && cursor.column < floor then none
      else read? floor (gap.addBlank c) next
    | none => some (gap, cursor)
termination_by cursor.rest.length
decreasing_by
  · exact Cursor.lineBreak?_length _hbreak
  · exact Cursor.blank?_length _hblank

end Gap

end PosterOverlay.Yaml
