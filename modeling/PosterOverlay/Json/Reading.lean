import PosterOverlay.Json.Number

/-!
# Reading JSON

Each reader takes a text apart into what stands at its front and what follows. Sequences and
mappings may nest to a bounded depth, and a mapping may not bind a name twice.
-/

namespace PosterOverlay.Json

/-- The blanks that may stand between the parts of a text. -/
def isSpace (c : Char) : Bool :=
  c == ' ' || c == '\n' || c == '\t' || c == '\r'

/-- The text without the blanks at its front. -/
def skipSpaces (text : List Char) : List Char :=
  text.dropWhile isSpace

/-- The character that a short escape stands for. -/
def shortEscape? (letter : Char) : Option Char :=
  match letter with
  | '"' => some '"'
  | '\\' => some '\\'
  | '/' => some '/'
  | 'b' => some (Char.ofNat 8)
  | 'f' => some (Char.ofNat 12)
  | 'n' => some '\n'
  | 'r' => some '\r'
  | 't' => some '\t'
  | _ => none

/-- The number that four hexadecimal digits name. -/
def unit? : List Char → Option (Nat × List Char)
  | a :: b :: c :: d :: rest => (Text.ofDigits? 16 [a, b, c, d]).map fun unit => (unit, rest)
  | _ => none

/-- Whether the number is the first half of a pair that stands for one character. -/
def isFirstHalf (unit : Nat) : Bool :=
  0xD800 ≤ unit && unit < 0xDC00

/-- Whether the number is the second half of such a pair. -/
def isSecondHalf (unit : Nat) : Bool :=
  0xDC00 ≤ unit && unit < 0xE000

/-- The character whose number is written in hexadecimal, as one number or as a pair. -/
def numbered? (text : List Char) : Option (Char × List Char) :=
  match unit? text with
  | none => none
  | some (unit, rest) =>
    if isSecondHalf unit then none
    else if isFirstHalf unit then
      match rest with
      | '\\' :: 'u' :: rest =>
        match unit? rest with
        | some (second, rest) =>
          if isSecondHalf second then
            some (Char.ofNat (0x10000 + (unit - 0xD800) * 0x400 + (second - 0xDC00)), rest)
          else none
        | none => none
      | _ => none
    else some (Char.ofNat unit, rest)

/-- The character that an escape stands for, whose backslash has been read. -/
def escape? : List Char → Option (Char × List Char)
  | 'u' :: rest => numbered? rest
  | letter :: rest => (shortEscape? letter).map fun c => (c, rest)
  | [] => none

theorem unit?_length {text rest : List Char} {unit : Nat} (h : unit? text = some (unit, rest)) :
    rest.length < text.length := by
  unfold unit? at h
  split at h
  · obtain ⟨_, _, heq⟩ := Option.map_eq_some_iff.mp h
    simp only [Prod.mk.injEq] at heq
    obtain ⟨_, rfl⟩ := heq
    simp only [List.length_cons]
    omega
  · simp at h

theorem numbered?_length {text rest : List Char} {c : Char}
    (h : numbered? text = some (c, rest)) : rest.length < text.length := by
  unfold numbered? at h
  split at h
  · simp at h
  rename_i unit tail hunit
  have hlength := unit?_length hunit
  split at h
  · simp at h
  split at h
  · split at h
    · split at h
      · rename_i _ _ _ _ hsecond
        have := unit?_length hsecond
        split at h
        · simp only [Option.some.injEq, Prod.mk.injEq] at h
          obtain ⟨_, rfl⟩ := h
          simp only [List.length_cons] at hlength
          omega
        · simp at h
      · simp at h
    · simp at h
  · simp only [Option.some.injEq, Prod.mk.injEq] at h
    obtain ⟨_, rfl⟩ := h
    exact hlength

theorem escape?_length {text rest : List Char} {c : Char} (h : escape? text = some (c, rest)) :
    rest.length < text.length := by
  unfold escape? at h
  split at h
  · have := numbered?_length h
    simp only [List.length_cons]
    omega
  · obtain ⟨_, _, heq⟩ := Option.map_eq_some_iff.mp h
    simp only [Prod.mk.injEq] at heq
    obtain ⟨_, rfl⟩ := heq
    simp
  · simp at h

/-- The text up to the closing quote, after the characters already read, which are given latest
first. -/
def textAfter (done text : List Char) : Option (String × List Char) :=
  match text with
  | [] => none
  | '"' :: rest => some (String.ofList done.reverse, rest)
  | '\\' :: rest =>
    match _h : escape? rest with
    | some (c, tail) => textAfter (c :: done) tail
    | none => none
  | c :: rest => if c.toNat < 32 then none else textAfter (c :: done) rest
termination_by text.length
decreasing_by
  · have := escape?_length _h
    simp only [List.length_cons]
    omega
  · simp

/-- A reader of what stands at the front of a text. -/
abbrev Reader (α : Type) := List Char → Option (α × List Char)

/-- Reads items with commas between them, up to the closing mark. The items already read are given
latest first; there may be at most as many more as the list of rounds is long. -/
def itemsAfter {α : Type} (item : Reader α) (closing : Char) :
    List Char → List α → Reader (List α)
  | [], _, _ => none
  | _ :: rounds, done, text =>
    match item text with
    | none => none
    | some (value, rest) =>
      match skipSpaces rest with
      | [] => none
      | c :: rest =>
        if c == ',' then itemsAfter item closing rounds (value :: done) rest
        else if c == closing then some ((value :: done).reverse, rest)
        else none

/-- Reads items with commas between them, up to the closing mark. Every item takes at least one
character, so the text itself bounds the rounds. -/
def items {α : Type} (item : Reader α) (closing : Char) : Reader (List α) := fun text =>
  match skipSpaces text with
  | [] => none
  | c :: rest =>
    if c == closing then some ([], rest) else itemsAfter item closing text [] (c :: rest)

/-- Reads a name, a colon and a value. -/
def field (value : Reader Value) : Reader (String × Value) := fun text =>
  match skipSpaces text with
  | '"' :: rest =>
    match textAfter [] rest with
    | none => none
    | some (name, rest) =>
      match skipSpaces rest with
      | ':' :: rest => (value rest).map fun (found, rest) => ((name, found), rest)
      | _ => none
  | _ => none

/-- Reads a number. -/
def number : Reader Value := fun text =>
  (Numeral.at? text).bind fun (numeral, rest) => numeral.value?.map fun value => (value, rest)

/-- Reads a value; `inside?` reads the values in it where deeper nesting is allowed. -/
def valueWith (inside? : Option (Reader Value)) : Reader Value := fun text =>
  match skipSpaces text with
  | 'n' :: 'u' :: 'l' :: 'l' :: rest => some (.null, rest)
  | 't' :: 'r' :: 'u' :: 'e' :: rest => some (.bool true, rest)
  | 'f' :: 'a' :: 'l' :: 's' :: 'e' :: rest => some (.bool false, rest)
  | '"' :: rest => (textAfter [] rest).map fun (s, rest) => (.string s, rest)
  | '[' :: rest =>
    inside?.bind fun inside =>
      (items inside ']' rest).map fun (found, rest) => (.sequence found, rest)
  | '\x7b' :: rest =>
    inside?.bind fun inside =>
      (items (field inside) '\x7d' rest).bind fun (found, rest) =>
        if (Fields.names found).Nodup then some (.mapping found, rest) else none
  | other => number other

/-- Reads a value that nests at most `depth` deep. -/
def valueAt : Nat → Reader Value
  | 0 => valueWith none
  | depth + 1 => valueWith (some (valueAt depth))

/-- How deep values may nest. -/
def maxDepth : Nat := 127

/-- The value that a JSON text describes; none when the text is not well formed. -/
def read? (text : String) : Option Value :=
  match valueAt maxDepth text.toList with
  | some (value, rest) => if (skipSpaces rest).isEmpty then some value else none
  | none => none

end PosterOverlay.Json
