import PosterOverlay.Yaml.ScalarStyle

/-!
# Writing YAML

Values are written in block style with two columns of indentation a level. A sequence under a key
is not indented further; an empty sequence or mapping is written with its brackets. A key that is
too long or has several lines is written after a question mark.

The output is built up backwards: every function takes what has been written so far, last
character first, and puts more in front of it.
-/

namespace PosterOverlay.Yaml

namespace Writer

/-- What has been written so far, last character first. -/
abbrev Output := List Char

/-- Writes characters. -/
def put (text : List Char) (out : Output) : Output :=
  text.reverse ++ out

/-- Indentation. -/
def pad (column : Nat) : List Char :=
  List.replicate column ' '

/-- Starts a new line, unless one has just been started, and indents it. -/
def newLine (column : Nat) (out : Output) : Output :=
  if out.head?.any isBreak then put (pad column) out else put ('\n' :: pad column) out

/-- Writes a text between single quotes. The line after a line break is indented. -/
def singleQuoted (column : Nat) (afterBreak : Bool) : List Char → List Char
  | [] => (if afterBreak then pad column else []) ++ ['\'']
  | c :: rest =>
    if isBreak c then c :: singleQuoted column true rest
    else
      let front := if afterBreak then pad column else []
      let body := if c == '\'' then ['\'', '\''] else [c]
      front ++ body ++ singleQuoted column (afterBreak && c == ' ') rest

/-- The letter of a short escape. -/
def shortEscape? (code : Nat) : Option Char :=
  match code with
  | 0 => some '0'
  | 7 => some 'a'
  | 8 => some 'b'
  | 9 => some 't'
  | 10 => some 'n'
  | 11 => some 'v'
  | 12 => some 'f'
  | 13 => some 'r'
  | 27 => some 'e'
  | 34 => some '"'
  | 92 => some '\\'
  | 0x85 => some 'N'
  | 0x2028 => some 'L'
  | 0x2029 => some 'P'
  | _ => none

/-- The digits of a long escape, with their letter. -/
def longEscape (code : Nat) : List Char :=
  let digits (width : Nat) := (Text.hexadecimal width code).map Char.toUpper
  if code ≤ 0xFF then 'x' :: digits 2
  else if code ≤ 0xFFFF then 'u' :: digits 4
  else 'U' :: digits 8

/-- A character between double quotes. -/
def escapedChar (c : Char) : List Char :=
  if !ScalarStyle.isPrintable c || isBreak c || c == '"' || c == '\\' then
    match shortEscape? c.toNat with
    | some letter => ['\\', letter]
    | none => '\\' :: longEscape c.toNat
  else [c]

/-- The indicators after the bar of a literal block: the indentation when the first line starts
with a space or is empty, and what happens to the line breaks at the end. -/
def literalHeader (text : List Char) : List Char :=
  let indent := if text.head?.any fun c => c == ' ' || isBreak c then ['2'] else []
  let chomp := match text.reverse with
    | last :: previous =>
      if !isBreak last then ['-'] else if previous.head?.all isBreak then ['+'] else []
    | [] => ['-']
  '|' :: indent ++ chomp ++ ['\n']

/-- The lines of a literal block; empty ones are not indented. -/
def literalLines (column : Nat) (afterBreak : Bool) : List Char → List Char
  | [] => []
  | c :: rest =>
    if isBreak c then c :: literalLines column true rest
    else (if afterBreak then pad column else []) ++ c :: literalLines column false rest

/-- The text of a scalar whose further lines are indented to the column. -/
def scalarText (column : Nat) (isSimpleKey : Bool) (text : String) : List Char :=
  let chars := text.toList
  match ScalarStyle.ofText text isSimpleKey with
  | .plain => chars
  | .single => '\'' :: singleQuoted column false chars
  | .double => '"' :: chars.flatMap escapedChar ++ ['"']
  | .literal => literalHeader chars ++ literalLines column true chars

/-- Where a value is written. -/
inductive Lead where
  /-- At the start of the text. -/
  | start
  /-- After a dash, or after the colon of a key that has a line of its own. -/
  | inline
  /-- After the colon of a key on the same line. -/
  | afterKey
  deriving DecidableEq

/-- The column of a block at that place inside a block at `column`. -/
def blockColumn (lead : Lead) (column : Nat) : Nat :=
  match lead with
  | .start => 0
  | _ => column + 2

/-- Starts the first line of a block. -/
def startBlock (lead : Lead) (column : Nat) (out : Output) : Output :=
  match lead with
  | .start => out
  | .inline => ' ' :: out
  | .afterKey => newLine column out

/-- Writes something that is no block. -/
def putFlow (lead : Lead) (text : List Char) (out : Output) : Output :=
  put text (if lead = .start then out else ' ' :: out)

/-- Whether a key can be written on the line of its value: it has one line and at most 128
bytes. -/
def isSimpleKey (key : String) : Bool :=
  !key.toList.any isBreak && key.utf8ByteSize ≤ 128

/-- Writes a key with its colon. -/
def putKey (column : Nat) (key : String) (out : Output) : Output :=
  if isSimpleKey key then ':' :: put (scalarText (column + 2) true key) out
  else
    ':' :: newLine column (put ('?' :: ' ' :: scalarText (column + 2) false key) out)

/-- Where the value of a key is written. -/
def leadOf (key : String) : Lead :=
  if isSimpleKey key then .afterKey else .inline

mutual

/-- Writes a value inside a block at the column. -/
def write (lead : Lead) (column : Nat) : Value → Output → Output
  | .sequence [], out => putFlow lead ['[', ']'] out
  | .mapping [], out => putFlow lead ['\x7b', '\x7d'] out
  | .sequence (item :: rest), out =>
    let inner := if lead = .afterKey then column else blockColumn lead column
    writeItems inner rest (write .inline inner item ('-' :: startBlock lead inner out))
  | .mapping ((key, value) :: rest), out =>
    let inner := blockColumn lead column
    writeFields inner rest
      (write (leadOf key) inner value (putKey inner key (startBlock lead inner out)))
  | .string s, out => putFlow lead (scalarText (column + 2) false s) out
  | .null, out => putFlow lead ['n', 'u', 'l', 'l'] out
  | value, out => putFlow lead value.text.toList out

/-- Writes the later items of a sequence at the column. -/
def writeItems (column : Nat) : List Value → Output → Output
  | [], out => out
  | item :: rest, out =>
    writeItems column rest (write .inline column item ('-' :: newLine column out))

/-- Writes the later fields of a mapping at the column. -/
def writeFields (column : Nat) : List (String × Value) → Output → Output
  | [], out => out
  | (key, value) :: rest, out =>
    writeFields column rest
      (write (leadOf key) column value (putKey column key (newLine column out)))

end

end Writer

/-- The YAML text of a value. -/
def write (value : Value) : String :=
  String.ofList (Writer.newLine 0 (Writer.write .start 0 value [])).reverse

end PosterOverlay.Yaml
