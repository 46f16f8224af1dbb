import PosterOverlay.Placeholder
import PosterOverlay.Settings.Limits
import PosterOverlay.Value.Text

/-!
# Substituting variables for placeholders

One scan of a text replaces its placeholders from left to right. A text that is a single
placeholder becomes the value of the variable, of whatever kind; elsewhere the text of the value
is spliced in. Scans are repeated until one changes nothing, so that nested placeholders are
resolved from the inside out, or until the depth is used up. A splice that would take the text
beyond the length bound is left out.
-/

namespace PosterOverlay

/-- Whether the value is a text that holds the placeholder of that name. -/
def Value.mentions (name : String) : Value → Bool
  | .string s => Text.contains s (Placeholder.written name)
  | _ => false

/-- The value that a placeholder of that name stands for: a variable that is absent, null or
refers to itself stands for nothing. -/
def Variables.visible? (scope : Variables) (name : String) : Option Value :=
  (Fields.get? scope name).filter fun value => !value.isNull && !value.mentions name

/-- The texts that placeholders of these names stand for, each name being looked up once. -/
def Variables.textsFor (scope : Variables) (names : List String) : Fields String :=
  Fields.tabulate names.eraseDups fun name => (scope.visible? name).map Value.text

theorem Variables.get?_textsFor (scope : Variables) (names : List String) (name : String) :
    (scope.textsFor names).get? name =
      if name ∈ names then (scope.visible? name).map Value.text else none := by
  simp [textsFor, Fields.get?_tabulate]

namespace Placeholder

/-- The state of a scan. -/
structure Scan where
  /-- The new text so far, last character first. -/
  done : List Char
  /-- The bytes by which the text may still grow. -/
  room : Nat

/-- Puts a text at the end of the new text. -/
def Scan.put (scan : Scan) (text : List Char) : Scan :=
  { scan with done := text.reverse ++ scan.done }

/-- The bytes by which a text is longer than the placeholder that it replaces. -/
def growth (name text : String) : Nat :=
  text.utf8ByteSize - (written name).utf8ByteSize

/-- Takes one piece of the old text over into the new one, given the texts of placeholders. -/
def Scan.take (texts : Fields String) (scan : Scan) : Piece → Scan
  | .letter c => { scan with done := c :: scan.done }
  | .hole name =>
    match texts.get? name with
    | none => scan.put (written name).toList
    | some text =>
      if scan.room < growth name text then scan.put (written name).toList
      else { scan.put text.toList with room := scan.room - growth name text }

/-- The text with its placeholders spliced, as long as it has room to grow. -/
def splice (scope : Variables) (room : Nat) (text : String) : String :=
  let pieces := pieces text
  let texts := scope.textsFor (pieces.filterMap Piece.name?)
  String.ofList (pieces.foldl (Scan.take texts) ⟨[], room⟩).done.reverse

/-- The value that one scan makes of a text. -/
def scan (scope : Variables) (length : Nat) (text : String) : Value :=
  match (whole? text).bind scope.visible? with
  | some value => value
  | none => .string (splice scope (length - text.utf8ByteSize) text)

/-- Scans a text again and again, at most `depth` times, until a scan changes nothing or yields a
value that is no text. -/
def scanUpTo (scope : Variables) (length : Nat) : Nat → String → Value
  | 0, text => .string text
  | depth + 1, text =>
    match scan scope length text with
    | .string next =>
      if next = text then .string text else scanUpTo scope length depth next
    | value => value

end Placeholder

namespace Limits

/-- The value of a text once its placeholders are resolved. -/
def resolveText (limits : Limits) (scope : Variables) (text : String) : Value :=
  Placeholder.scanUpTo scope limits.length limits.depth text

/-- The text of a name once its placeholders are resolved. -/
def resolveName (limits : Limits) (scope : Variables) (name : String) : String :=
  (limits.resolveText scope name).text

mutual

/-- The value with the placeholders of all its texts resolved. Names of mappings stay. -/
def resolve (limits : Limits) (scope : Variables) : Value → Value
  | .string s => limits.resolveText scope s
  | .sequence items => .sequence (resolveItems limits scope items)
  | .mapping fields => .mapping (resolveFields limits scope fields)
  | value => value

/-- Resolves every item. -/
def resolveItems (limits : Limits) (scope : Variables) : List Value → List Value
  | [] => []
  | item :: rest => resolve limits scope item :: resolveItems limits scope rest

/-- Resolves every value under its name. -/
def resolveFields (limits : Limits) (scope : Variables) :
    List (String × Value) → List (String × Value)
  | [] => []
  | (name, value) :: rest =>
    (name, resolve limits scope value) :: resolveFields limits scope rest

end

end Limits

end PosterOverlay
