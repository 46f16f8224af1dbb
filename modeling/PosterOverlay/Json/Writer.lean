import PosterOverlay.Number.Notation
import PosterOverlay.Value

/-!
# Writing JSON

Values are written either compactly, without any blanks, or over several lines with two spaces
of indentation a level. Mappings keep their order; a double that is not finite is written as
null.
-/

namespace PosterOverlay.Json

/-- A character of a text, escaped where JSON asks for it. -/
def escapeChar (c : Char) : List Char :=
  if c = '"' then ['\\', '"']
  else if c = '\\' then ['\\', '\\']
  else if c = '\n' then ['\\', 'n']
  else if c = '\r' then ['\\', 'r']
  else if c = '\t' then ['\\', 't']
  else if c.toNat = 8 then ['\\', 'b']
  else if c.toNat = 12 then ['\\', 'f']
  else if c.toNat < 32 then '\\' :: 'u' :: Text.hexadecimal 4 c.toNat
  else [c]

/-- A text between quotes. -/
def quoted (s : String) : List Char :=
  '"' :: s.toList.flatMap escapeChar ++ ['"']

/-- A value that holds no others. -/
def scalar : Value → List Char
  | .bool true => ['t', 'r', 'u', 'e']
  | .bool false => ['f', 'a', 'l', 's', 'e']
  | .int i => Text.integerChars i
  | .float x => FloatNotation.json.write x
  | .string s => quoted s
  | _ => ['n', 'u', 'l', 'l']

mutual

/-- The compact text of a value. -/
def compact : Value → List Char
  | .sequence [] => ['[', ']']
  | .sequence (item :: rest) => '[' :: compact item ++ compactItems rest
  | .mapping [] => ['\x7b', '\x7d']
  | .mapping ((name, value) :: rest) =>
    '\x7b' :: quoted name ++ ':' :: compact value ++ compactFields rest
  | value => scalar value

/-- The later items of a sequence, each after a comma, and its closing bracket. -/
def compactItems : List Value → List Char
  | [] => [']']
  | item :: rest => ',' :: compact item ++ compactItems rest

/-- The later fields of a mapping, each after a comma, and its closing brace. -/
def compactFields : List (String × Value) → List Char
  | [] => ['\x7d']
  | (name, value) :: rest =>
    ',' :: quoted name ++ ':' :: compact value ++ compactFields rest

end

/-- A line break and the indentation of a level. -/
def newLine (level : Nat) : List Char :=
  '\n' :: List.replicate (2 * level) ' '

mutual

/-- The text of a value over several lines; its inner lines are indented one level more than
`level`. -/
def layout (level : Nat) : Value → List Char
  | .sequence [] => ['[', ']']
  | .sequence (item :: rest) =>
    '[' :: newLine (level + 1) ++ layout (level + 1) item ++ layoutItems level rest
  | .mapping [] => ['\x7b', '\x7d']
  | .mapping ((name, value) :: rest) =>
    '\x7b' :: newLine (level + 1) ++ quoted name ++ ':' :: ' ' :: layout (level + 1) value ++
      layoutFields level rest
  | value => scalar value

/-- The later items of a sequence at the level, and its closing bracket. -/
def layoutItems (level : Nat) : List Value → List Char
  | [] => newLine level ++ [']']
  | item :: rest =>
    ',' :: newLine (level + 1) ++ layout (level + 1) item ++ layoutItems level rest

/-- The later fields of a mapping at the level, and its closing brace. -/
def layoutFields (level : Nat) : List (String × Value) → List Char
  | [] => newLine level ++ ['\x7d']
  | (name, value) :: rest =>
    ',' :: newLine (level + 1) ++ quoted name ++ ':' :: ' ' :: layout (level + 1) value ++
      layoutFields level rest

end

/-- The compact JSON text of a value. -/
def write (value : Value) : String :=
  String.ofList (compact value)

/-- The JSON text of a value over several lines. -/
def writePretty (value : Value) : String :=
  String.ofList (layout 0 value)

end PosterOverlay.Json
