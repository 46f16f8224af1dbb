import PosterOverlay.Yaml.Character
import PosterOverlay.Yaml.Schema

/-!
# How texts are written in YAML

A text is written as plainly as it can be: without quotes when it reads back as the same text, as
a literal block when it has several lines, and otherwise between single or, if need be, double
quotes.
-/

namespace PosterOverlay.Yaml

/-- A way of writing a text. -/
inductive ScalarStyle where
  /-- Without quotes. -/
  | plain
  /-- Between single quotes. -/
  | single
  /-- Between double quotes, with escapes. -/
  | double
  /-- As a literal block. -/
  | literal
  deriving DecidableEq

namespace ScalarStyle

/-- Whether a character can be written as it is. -/
def isPrintable (c : Char) : Bool :=
  let code := c.toNat
  code == 10 || (0x20 ≤ code && code ≤ 0x7E) ||
    (0xA0 ≤ code && code ≠ 0xFEFF && code ≠ 0xFFFE && code ≠ 0xFFFF)

/-- Whether a character with a property is followed by one with another. -/
def hasPair (first second : Char → Bool) : List Char → Bool
  | a :: b :: rest => (first a && second b) || hasPair first second (b :: rest)
  | _ => false

/-- Whether a character that is not the first one of the text keeps it from being plain: a colon
before a gap, or a number sign after one. -/
def hasInnerIndicator : List Char → Bool
  | _ :: ':' :: rest => rest.head?.all isGap || hasInnerIndicator (':' :: rest)
  | a :: b :: rest => (isGap a && b == '#') || hasInnerIndicator (b :: rest)
  | _ => false

/-- Whether the first character keeps the text from being plain. -/
def hasFirstIndicator : List Char → Bool
  | c :: rest =>
    if c == '-' || c == '?' || c == ':' then rest.head?.all isGap else isIndicator c
  | [] => false

/-- Whether the text starts like a mark before or after a document. -/
def hasMark (text : List Char) : Bool :=
  "---".toList.isPrefixOf text || "...".toList.isPrefixOf text

/-- Whether a space or a line break stands at either end. -/
def hasLooseEnd (text : List Char) : Bool :=
  let isLoose (c : Char) := c == ' ' || isBreak c
  text.head?.any isLoose || text.getLast?.any isLoose

/-- Whether nothing but double quotes will do. -/
def needsEscapes (text : List Char) : Bool :=
  !text.all isPrintable || hasPair (· == ' ') isBreak text

/-- Whether the text can be written without quotes. -/
def allowsPlain (text : List Char) : Bool :=
  !needsEscapes text && !text.any isBreak && !hasLooseEnd text && !hasMark text &&
    !hasFirstIndicator text && !hasInnerIndicator text

/-- Whether the text can be written between single quotes. -/
def allowsSingle (text : List Char) : Bool :=
  !needsEscapes text && !hasPair isBreak (· == ' ') text

/-- Whether the text can be written as a block. -/
def allowsLiteral (text : List Char) : Bool :=
  !text.isEmpty && !needsEscapes text && text.getLast? != some ' '

/-- Whether a plain scalar of that text would be read as something else than a text. -/
def isAmbiguous (text : String) : Bool :=
  match Schema.plain? text with
  | some (.string _) => Schema.isZeroPadded text.toList
  | _ => true

/-- The style of a text. A key that stays on its line has no block style. -/
def ofText (text : String) (isSimpleKey : Bool) : ScalarStyle :=
  let chars := text.toList
  let quoted : ScalarStyle := if allowsSingle chars then .single else .double
  if chars.any isBreak && isSimpleKey then .double
  else if chars.contains '\n' then
    if allowsLiteral chars && !isSimpleKey then .literal else .double
  else if isAmbiguous text || !allowsPlain chars then quoted
  else .plain

end ScalarStyle

end PosterOverlay.Yaml
