import PosterOverlay.Text.Separator
import PosterOverlay.Value

/-!
# Placeholders

A placeholder is a name between `<<` and `>>`. A name is not empty and holds no angle bracket, so
of nested placeholders only the innermost ones count. A text is a row of pieces: letters and
placeholders.
-/

namespace PosterOverlay

/-- A piece of a text. -/
inductive Piece where
  /-- One character that belongs to no placeholder. -/
  | letter (c : Char)
  /-- A placeholder with its name. -/
  | hole (name : String)
  deriving DecidableEq, Repr

/-- The name, when the piece is a placeholder. -/
def Piece.name? : Piece → Option String
  | letter _ => none
  | hole name => some name

namespace Placeholder

/-- The written form of a placeholder. -/
def written (name : String) : String :=
  "<<" ++ name ++ ">>"

/-- The characters that a name may hold. -/
def isNameChar (c : Char) : Bool :=
  c != '<' && c != '>'

/-- The name of the placeholder that opens the text, and the text after it. -/
def opening? : List Char → Option (String × List Char)
  | '<' :: '<' :: rest =>
    match rest.takeWhile isNameChar, rest.dropWhile isNameChar with
    | first :: name, '>' :: '>' :: tail => some (String.ofList (first :: name), tail)
    | _, _ => none
  | _ => none

theorem opening?_length {text tail : List Char} {name : String}
    (h : opening? text = some (name, tail)) : tail.length < text.length := by
  unfold opening? at h
  split at h
  · rename_i rest
    split at h
    · rename_i _ _ _ found _ hdrop
      simp only [Option.some.injEq, Prod.mk.injEq] at h
      obtain ⟨_, rfl⟩ := h
      have := (List.dropWhile_suffix isNameChar (l := rest)).length_le
      rw [hdrop] at this
      simp only [List.length_cons] at this ⊢
      omega
    · simp at h
  · simp at h

/-- The pieces of a text after those already found, which are given latest first. -/
def piecesAfter (found : List Piece) (text : List Char) : List Piece :=
  match _h : opening? text with
  | some (name, tail) => piecesAfter (.hole name :: found) tail
  | none =>
    match text with
    | [] => found.reverse
    | c :: rest => piecesAfter (.letter c :: found) rest
termination_by text.length
decreasing_by
  · exact opening?_length _h
  · simp

/-- The pieces of a text from left to right: at each place a placeholder if one opens there, and
otherwise one letter. -/
def pieces (text : String) : List Piece :=
  piecesAfter [] text.toList

/-- The name, when the text is one placeholder and nothing else. -/
def whole? (text : String) : Option String :=
  match opening? text.toList with
  | some (name, []) => some name
  | _ => none

/-- Whether an opening `<<` is followed anywhere by a closing `>>`. -/
def opensAndCloses : List Char → Bool
  | '<' :: '<' :: rest => Text.occursIn ['>', '>'] rest
  | _ :: rest => opensAndCloses rest
  | [] => false

/-- Whether the text still looks as if it held a placeholder. -/
def occurs (text : String) : Bool :=
  opensAndCloses text.toList

end Placeholder

/-- Whether the value is a text that still looks as if it held a placeholder. -/
def Value.isUnresolved : Value → Bool
  | .string s => Placeholder.occurs s
  | _ => false

end PosterOverlay
