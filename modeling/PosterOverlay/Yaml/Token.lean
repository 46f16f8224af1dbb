import PosterOverlay.Text.Digits
import PosterOverlay.Yaml.Cursor

/-!
# Tokens of YAML

The tokens that a YAML text is cut into, and the readers of those tokens that stand for
themselves: anchors, aliases, tags and directives. How deep lines are indented is already turned
into tokens that open and close blocks.
-/

namespace PosterOverlay.Yaml

/-- A token of a YAML text. -/
inductive Token where
  /-- The directive that names the version. -/
  | version (major minor : Nat)
  /-- The directive that gives a handle for tags. -/
  | handle (name replacement : String)
  /-- The mark before a document. -/
  | documentStart
  /-- The mark after a document. -/
  | documentEnd
  /-- The end of the text. -/
  | textEnd
  /-- The start of a sequence in block style. -/
  | blockSequence
  /-- The start of a mapping in block style. -/
  | blockMapping
  /-- The end of a sequence or mapping in block style. -/
  | blockEnd
  /-- An opening bracket. -/
  | openSequence
  /-- A closing bracket. -/
  | closeSequence
  /-- An opening brace. -/
  | openMapping
  /-- A closing brace. -/
  | closeMapping
  /-- The dash before an item. -/
  | dash
  /-- The comma between items. -/
  | comma
  /-- The place before a key. -/
  | key
  /-- The colon before a value. -/
  | value
  /-- A reference to an anchored node. -/
  | alias (name : String)
  /-- A name for the node that follows. -/
  | anchor (name : String)
  /-- A tag, as its handle and the rest. -/
  | tag (handle suffix : String)
  /-- A scalar with its text. -/
  | scalar (text : String) (isPlain : Bool)
  deriving DecidableEq

namespace Token

/-- Whether the character after the name of an anchor may follow it. -/
def mayFollowAnchor (cursor : Cursor) : Bool :=
  cursor.isGapAt 0 || cursor.satisfies 0 fun c =>
    ['?', ':', ',', ']', '\x7d', '%', '@', Char.ofNat 96].contains c

/-- Reads the name of an anchor or alias after its indicator. -/
def anchorName? (cursor : Cursor) : Option (String × Cursor) :=
  let (name, next) := (cursor.advance 1).run isWordChar
  if name.isEmpty || !mayFollowAnchor next then none else some (String.ofList name, next)

/-- Reads the two hexadecimal digits after a percent sign. -/
def octet? : List Char → Option (Nat × List Char)
  | '%' :: high :: low :: rest => (Text.ofDigits? 16 [high, low]).map fun byte => (byte, rest)
  | _ => none

/-- The number of bytes of the character that a first byte announces. -/
def byteCount? (first : Nat) : Option Nat :=
  if first < 0x80 then some 1
  else if first / 0x20 = 6 then some 2
  else if first / 0x10 = 14 then some 3
  else if first / 0x08 = 30 then some 4
  else none

/-- Reads as many further escaped bytes of a character. -/
def furtherOctets? : Nat → List Char → Option (List Nat × List Char)
  | 0, rest => some ([], rest)
  | count + 1, text => do
    let (byte, rest) ← octet? text
    if byte / 0x40 ≠ 2 then none
    let (bytes, rest) ← furtherOctets? count rest
    return (byte :: bytes, rest)

/-- Reads the escaped bytes of one character. -/
def escapedOctets? (text : List Char) : Option (List Nat × List Char) := do
  let (first, rest) ← octet? text
  let count ← byteCount? first
  let (bytes, rest) ← furtherOctets? (count - 1) rest
  return (first :: bytes, rest)

/-- Reads the characters of a tag and replaces its escapes, in front of the bytes already read,
which are given last one first. -/
def tagBytes? (allowed : Char → Bool) :
    List Char → List UInt8 → Cursor → Option (List UInt8 × Cursor)
  | [], _, _ => none
  | _ :: rounds, bytes, cursor =>
    match cursor.rest with
    | [] => some (bytes, cursor)
    | c :: _ =>
      if !allowed c then some (bytes, cursor)
      else if c == '%' then do
        let (escaped, _) ← escapedOctets? cursor.rest
        tagBytes? allowed rounds ((escaped.map UInt8.ofNat).reverse ++ bytes)
          (cursor.advance (3 * escaped.length))
      else tagBytes? allowed rounds (c.toNat.toUInt8 :: bytes) (cursor.advance 1)

/-- Reads the characters of a tag after those of `front`. An empty result is refused unless
something was read before. -/
def tagText? (allowed : Char → Bool) (front : String) (mayBeEmpty : Bool) (cursor : Cursor) :
    Option (String × Cursor) := do
  let (bytes, next) ←
    tagBytes? allowed cursor.rounds front.toUTF8.toList.reverse cursor
  if !mayBeEmpty && next.index == cursor.index then none
  return ((String.fromUTF8? ⟨bytes.reverse.toArray⟩).getD "!", next)

/-- Reads a handle: an exclamation mark, a word, and perhaps another exclamation mark. -/
def handleName? (cursor : Cursor) : Option (List Char × Bool × Cursor) :=
  if cursor.isAt '!' then
    let (word, next) := (cursor.advance 1).run isWordChar
    if next.isAt '!' then some (word, true, next.advance 1) else some (word, false, next)
  else none

/-- Reads a tag between angle brackets. -/
def verbatimTag? (cursor : Cursor) : Option (Token × Cursor) := do
  let (text, next) ← tagText? isVerbatimTagChar "" false (cursor.advance 2)
  if next.isAt '>' then return (.tag "" text, next.advance 1) else none

/-- Reads a tag with its handle. A lone exclamation mark is a tag without a handle. -/
def shorthandTag? (cursor : Cursor) : Option (Token × Cursor) := do
  let (word, closed, next) ← handleName? cursor
  if closed then
    let (suffix, next) ← tagText? isTagChar "" false next
    return (.tag (String.ofList ('!' :: word ++ ['!'])) suffix, next)
  else
    let (suffix, next) ← tagText? isTagChar (String.ofList word) true next
    return (if suffix.isEmpty then .tag "" "!" else .tag "!" suffix, next)

/-- Reads the tag that starts here. A gap follows it, or in a flow collection a comma. -/
def tag? (inFlow : Bool) (cursor : Cursor) : Option (Token × Cursor) := do
  let (token, next) ←
    if cursor.satisfies 1 (· == '<') then verbatimTag? cursor else shorthandTag? cursor
  if (inFlow && next.isAt ',') || next.isGapAt 0 then return (token, next) else none

/-- Reads a number of at most nine digits. -/
def versionNumber? (cursor : Cursor) : Option (Nat × Cursor) :=
  let (digits, next) := cursor.run Char.isDigit
  if digits.isEmpty || 9 < digits.length then none
  else some (Text.ofDecimalDigits digits, next)

/-- Reads the value of the directive that names the version. -/
def version? (cursor : Cursor) : Option (Token × Cursor) := do
  let (major, next) ← versionNumber? (cursor.skipRun isBlank)
  if !next.isAt '.' then none
  let (minor, next) ← versionNumber? (next.advance 1)
  return (.version major minor, next)

/-- Reads the value of the directive that gives a handle for tags. -/
def handle? (cursor : Cursor) : Option (Token × Cursor) := do
  let (word, closed, next) ← handleName? (cursor.skipRun isBlank)
  if !closed && !word.isEmpty then none
  if !next.satisfies 0 isBlank then none
  let (replacement, next) ← tagText? isVerbatimTagChar "" false (next.skipRun isBlank)
  if !next.isGapAt 0 then none
  let name := '!' :: word ++ (if closed then ['!'] else [])
  return (.handle (String.ofList name) replacement, next)

/-- Reads the directive that starts here, with the rest of its line. -/
def directive? (cursor : Cursor) : Option (Token × Cursor) := do
  let (name, next) := (cursor.advance 1).run isWordChar
  if !next.isGapAt 0 then none
  let (token, next) ←
    if name == "YAML".toList then version? next
    else if name == "TAG".toList then handle? next
    else none
  let next := (next.skipRun isBlank).skipComment
  if next.isLineEnd then return (token, next.skipBreak) else none

end Token

end PosterOverlay.Yaml
