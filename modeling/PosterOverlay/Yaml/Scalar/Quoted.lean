import PosterOverlay.Text.Digits
import PosterOverlay.Yaml.Folding

/-!
# Quoted scalars

Between single quotes only a doubled quote is special; between double quotes a backslash starts
an escape. Line breaks are folded, and one that is escaped disappears.
-/

namespace PosterOverlay.Yaml.Quoted

/-- The character of an escape that is a single letter. -/
def simpleEscape? (c : Char) : Option Char :=
  match c with
  | '0' => some (Char.ofNat 0)
  | 'a' => some (Char.ofNat 7)
  | 'b' => some (Char.ofNat 8)
  | 't' => some '\t'
  | '\t' => some '\t'
  | 'n' => some '\n'
  | 'v' => some (Char.ofNat 11)
  | 'f' => some (Char.ofNat 12)
  | 'r' => some '\r'
  | 'e' => some (Char.ofNat 27)
  | ' ' => some ' '
  | '"' => some '"'
  | '/' => some '/'
  | '\\' => some '\\'
  | 'N' => some (Char.ofNat 0x85)
  | '_' => some (Char.ofNat 0xA0)
  | 'L' => some (Char.ofNat 0x2028)
  | 'P' => some (Char.ofNat 0x2029)
  | _ => none

/-- The number of hexadecimal digits that the letter of an escape asks for. -/
def escapeDigits? (c : Char) : Option Nat :=
  match c with
  | 'x' => some 2
  | 'u' => some 4
  | 'U' => some 8
  | _ => none

/-- The character with a code, unless the code is that of a surrogate or too large. -/
def charOfCode? (code : Nat) : Option Char :=
  if code.isValidChar then some (Char.ofNat code) else none

/-- Reads the escape after a backslash: its character and the number of characters read. -/
def escape? : List Char → Option (Char × Nat)
  | [] => none
  | c :: rest =>
    match escapeDigits? c with
    | some count =>
      let digits := rest.take count
      if digits.length < count then none
      else ((Text.ofDigits? 16 digits).bind charOfCode?).map fun value => (value, count + 1)
    | none => (simpleEscape? c).map fun value => (value, 1)

/-- The quote of a style. -/
def quote (double : Bool) : Char :=
  if double then '"' else '\''

/-- Reads characters until a gap, the closing quote or an escaped line break, in front of `text`,
which holds them last one first. The gap that an escaped line break opens is returned. -/
def word? (double : Bool) :
    List Char → List Char → Cursor → Option (List Char × Gap × Cursor)
  | [], _, _ => none
  | _ :: rounds, text, cursor =>
    match cursor.rest with
    | [] => some (text, .empty, cursor)
    | c :: rest =>
      if isGap c then some (text, .empty, cursor)
      else if !double && c == '\'' && rest.head? == some '\'' then
        word? double rounds ('\'' :: text) (cursor.advance 2)
      else if c == quote double then some (text, .empty, cursor)
      else if double && c == '\\' then
        if rest.head?.any isBreak then some (text, .escaped, (cursor.advance 1).skipBreak)
        else
          match escape? rest with
          | some (value, count) => word? double rounds (value :: text) (cursor.advance (count + 1))
          | none => none
      else word? double rounds (c :: text) (cursor.advance 1)

/-- Reads words and gaps in turn up to the closing quote. -/
def read? (double : Bool) : List Char → List Char → Cursor → Option (List Char × Cursor)
  | [], _, _ => none
  | _ :: rounds, text, cursor =>
    if cursor.isDocumentMark || cursor.rest.isEmpty then none
    else do
      let (text, gap, next) ← word? double cursor.rounds text cursor
      if next.isAt (quote double) then return (text, next.advance 1)
      let (gap, next) ← gap.read? 0 next
      read? double rounds (gap.folded ++ text) next

/-- Reads the quoted scalar that starts here: its text, last character first. -/
def scan? (double : Bool) (cursor : Cursor) : Option (List Char × Cursor) :=
  read? double cursor.rounds [] (cursor.advance 1)

end PosterOverlay.Yaml.Quoted
