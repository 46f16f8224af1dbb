import PosterOverlay.Yaml.Character

/-!
# Places in a YAML text

A cursor is what is left of the text together with its line, its column and the number of
characters before it. Line breaks of all kinds read as a line feed, except the line and paragraph
separators, which stay what they are.
-/

namespace PosterOverlay.Yaml

/-- A place in the text that is being read. -/
structure Cursor where
  /-- The text from here on. -/
  rest : List Char
  /-- The number of lines before this one. -/
  line : Nat
  /-- The number of characters before this one on its line. -/
  column : Nat
  /-- The number of characters before this one. -/
  index : Nat

namespace Cursor

/-- The start of a text. -/
def ofText (text : String) : Cursor := ⟨text.toList, 0, 0, 0⟩

/-- A bound for rounds that take at least one character each: as many as characters are left, and
one for the end. The text itself is the bound, so that nothing is counted. -/
def rounds (cursor : Cursor) : List Char :=
  '\n' :: cursor.rest

/-- The character at a distance. -/
def at? (cursor : Cursor) (distance : Nat) : Option Char :=
  cursor.rest[distance]?

/-- Whether the character here is the given one. -/
def isAt (cursor : Cursor) (c : Char) : Bool :=
  cursor.rest.head? == some c

/-- Whether the character at a distance satisfies a property; the end of the text does not. -/
def satisfies (cursor : Cursor) (distance : Nat) (property : Char → Bool) : Bool :=
  (cursor.at? distance).any property

/-- Whether there is a blank, a line break or the end of the text at a distance. -/
def isGapAt (cursor : Cursor) (distance : Nat) : Bool :=
  (cursor.at? distance).all isGap

/-- Whether a line ends here. -/
def isLineEnd (cursor : Cursor) : Bool :=
  (cursor.at? 0).all isBreak

/-- Passes over as many characters, none of which ends a line. -/
def advance (cursor : Cursor) (count : Nat) : Cursor :=
  ⟨cursor.rest.drop count, cursor.line, cursor.column + count, cursor.index + count⟩

/-- The longest run of characters with a property, which no line break has, and what follows. -/
def run (cursor : Cursor) (property : Char → Bool) : List Char × Cursor :=
  let taken := cursor.rest.takeWhile property
  (taken, cursor.advance taken.length)

/-- Passes over the longest run of characters with a property, which no line break has. -/
def skipRun (cursor : Cursor) (property : Char → Bool) : Cursor :=
  (cursor.run property).2

/-- Passes over the rest of the line. -/
def skipLine (cursor : Cursor) : Cursor :=
  cursor.skipRun fun c => !isBreak c

/-- Passes over a comment, if one starts here. -/
def skipComment (cursor : Cursor) : Cursor :=
  if cursor.isAt '#' then cursor.skipLine else cursor

/-- The start of the next line after a line break of that many characters. -/
def newLine (cursor : Cursor) (rest : List Char) (count : Nat) : Cursor :=
  ⟨rest, cursor.line + 1, 0, cursor.index + count⟩

/-- The character that a line break reads as. -/
def readBreak (c : Char) : Char :=
  if c.toNat = 0x2028 ∨ c.toNat = 0x2029 then c else '\n'

/-- Reads a line break, if there is one here. -/
def lineBreak? (cursor : Cursor) : Option (Char × Cursor) :=
  match cursor.rest with
  | '\r' :: '\n' :: rest => some ('\n', cursor.newLine rest 2)
  | c :: rest => if isBreak c then some (readBreak c, cursor.newLine rest 1) else none
  | [] => none

theorem lineBreak?_length {cursor next : Cursor} {c : Char}
    (h : cursor.lineBreak? = some (c, next)) : next.rest.length < cursor.rest.length := by
  unfold lineBreak? at h
  split at h
  · rename_i heq
    simp only [Option.some.injEq, Prod.mk.injEq] at h
    rw [heq, ← h.2]
    simp only [newLine, List.length_cons]
    omega
  · rename_i heq
    split at h
    · simp only [Option.some.injEq, Prod.mk.injEq] at h
      rw [heq, ← h.2]
      simp [newLine]
    · simp at h
  · simp at h

/-- Passes over a line break, if there is one here. -/
def skipBreak (cursor : Cursor) : Cursor :=
  match cursor.lineBreak? with
  | some (_, next) => next
  | none => cursor

/-- Reads one blank, if there is one here. -/
def blank? (cursor : Cursor) : Option (Char × Cursor) :=
  match cursor.rest with
  | c :: _ => if isBlank c then some (c, cursor.advance 1) else none
  | [] => none

theorem blank?_length {cursor next : Cursor} {c : Char}
    (h : cursor.blank? = some (c, next)) : next.rest.length < cursor.rest.length := by
  unfold blank? at h
  split at h
  · rename_i heq
    split at h
    · simp only [Option.some.injEq, Prod.mk.injEq] at h
      rw [← h.2]
      simp only [advance, heq, List.drop_succ_cons, List.drop_zero, List.length_cons]
      omega
    · simp at h
  · simp at h

/-- Whether a mark stands here three times, at the start of a line and before a gap. -/
def isMark (cursor : Cursor) (mark : Char) : Bool :=
  cursor.column == 0 && cursor.rest.take 3 == [mark, mark, mark] && cursor.isGapAt 3

/-- Whether a document begins or ends here. -/
def isDocumentMark (cursor : Cursor) : Bool :=
  cursor.isMark '-' || cursor.isMark '.'

end Cursor

end PosterOverlay.Yaml
