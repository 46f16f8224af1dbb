import PosterOverlay.Yaml.Scalar.Block
import PosterOverlay.Yaml.Scalar.Plain
import PosterOverlay.Yaml.Scalar.Quoted
import PosterOverlay.Yaml.Token

/-!
# Cutting a YAML text into tokens

Indentation opens and closes blocks, and a colon shows only afterwards that what stood before it
was a key. So the lexer keeps the open indentations and, for each flow collection, the place
where a key may have started; when the colon comes, the token before the key is put in there.
Such a key ends on its line and within 1024 characters.
-/

namespace PosterOverlay.Yaml

/-- A place where a key may have started. -/
structure KeyStart where
  /-- The number of tokens before it. -/
  position : Nat
  /-- The place in the text. -/
  cursor : Cursor
  /-- Whether nothing else than a key can stand there. -/
  required : Bool

/-- The state of the lexer. -/
structure Lexer where
  /-- The text that is left. -/
  cursor : Cursor
  /-- The tokens found so far. -/
  tokens : Array Token
  /-- The indentation of the innermost block, −1 outside all of them. -/
  indent : Int
  /-- The indentations of the blocks around it. -/
  outer : List Int
  /-- Whether a key may start here. -/
  keyAllowed : Bool
  /-- Where a key may have started in the innermost collection. -/
  keyStart? : Option KeyStart
  /-- The same for the collections around each open flow collection. -/
  outerKeyStarts : List (Option KeyStart)

namespace Lexer

/-- The lexer at the start of a text. -/
def ofText (text : String) : Lexer :=
  ⟨.ofText text, #[], -1, [], true, none, []⟩

/-- Whether the place is inside a flow collection. -/
def inFlow (lexer : Lexer) : Bool :=
  !lexer.outerKeyStarts.isEmpty

/-- Adds a token. -/
def push (lexer : Lexer) (token : Token) : Lexer :=
  { lexer with tokens := lexer.tokens.push token }

/-- Passes over an indicator and adds its token. -/
def pushIndicator (lexer : Lexer) (length : Nat) (token : Token) : Lexer :=
  { lexer.push token with cursor := lexer.cursor.advance length }

/-- Passes over blanks, comments and line breaks. After a line break a key may start, except in a
flow collection. A tab in place of indentation is not passed over. -/
def skipGaps (lexer : Lexer) : List Char → Lexer
  | [] => lexer
  | _ :: rounds =>
    let cursor := lexer.cursor
    let cursor := if cursor.index = 0 ∧ cursor.isAt byteOrderMark then cursor.advance 1 else cursor
    let tabs := lexer.inFlow || !lexer.keyAllowed
    let cursor := (cursor.skipRun fun c => c == ' ' || (tabs && c == '\t')).skipComment
    match cursor.lineBreak? with
    | some (_, next) =>
      skipGaps { lexer with cursor := next, keyAllowed := lexer.keyAllowed || !lexer.inFlow } rounds
    | none => { lexer with cursor := cursor }

/-- Gives up the place of a possible key when it has become too old; a required one must not. -/
def dropStale? (cursor : Cursor) : Option KeyStart → Option (Option KeyStart)
  | none => some none
  | some start =>
    if start.cursor.line < cursor.line || start.cursor.index + 1024 < cursor.index then
      if start.required then none else some none
    else some (some start)

/-- Gives up all places of possible keys that have become too old. -/
def checkKeys? (lexer : Lexer) : Option Lexer := do
  let keyStart? ← dropStale? lexer.cursor lexer.keyStart?
  let outerKeyStarts ← lexer.outerKeyStarts.mapM (dropStale? lexer.cursor)
  return { lexer with keyStart?, outerKeyStarts }

/-- Closes the blocks that are indented more than `column`. -/
def closeBlocks (lexer : Lexer) (column : Int) : Lexer :=
  if lexer.inFlow then lexer
  else
    let depths := (lexer.indent :: lexer.outer).takeWhile (column < ·)
    let remaining := (lexer.indent :: lexer.outer).drop depths.length
    { lexer with
      tokens := lexer.tokens ++ (List.replicate depths.length Token.blockEnd).toArray
      indent := remaining.headD (-1)
      outer := remaining.drop 1 }

/-- Opens a block at a column that is indented more than the innermost one; its token goes before
the token at `position`. -/
def openBlock (lexer : Lexer) (column position : Nat) (token : Token) : Lexer :=
  if lexer.inFlow || (column : Int) ≤ lexer.indent then lexer
  else
    { lexer with
      tokens := lexer.tokens.insertIdxIfInBounds position token
      indent := column
      outer := lexer.indent :: lexer.outer }

/-- Gives up the place of a possible key; a required one must not be given up. -/
def dropKey? (lexer : Lexer) : Option Lexer :=
  if lexer.keyStart?.any KeyStart.required then none else some { lexer with keyStart? := none }

/-- Remembers that a key may start here. -/
def saveKey? (lexer : Lexer) : Option Lexer :=
  if lexer.keyAllowed then do
    let lexer ← lexer.dropKey?
    let required := !lexer.inFlow && lexer.indent == (lexer.cursor.column : Int)
    return { lexer with keyStart? := some ⟨lexer.tokens.size, lexer.cursor, required⟩ }
  else some lexer

/-- Sets whether a key may start here. -/
def allowKey (lexer : Lexer) (allowed : Bool) : Lexer :=
  { lexer with keyAllowed := allowed }

/-- Reads a mark before or after a document. -/
def documentMark? (lexer : Lexer) (token : Token) : Option Lexer := do
  let lexer ← (lexer.closeBlocks (-1)).dropKey?
  return (lexer.allowKey false).pushIndicator 3 token

/-- Reads a directive. -/
def directive? (lexer : Lexer) : Option Lexer := do
  let lexer ← (lexer.closeBlocks (-1)).dropKey?
  let (token, cursor) ← Token.directive? lexer.cursor
  return { (lexer.allowKey false).push token with cursor }

/-- Reads the start of a flow collection. -/
def openFlow? (lexer : Lexer) (token : Token) : Option Lexer := do
  let lexer ← lexer.saveKey?
  let lexer := { lexer with
    outerKeyStarts := lexer.keyStart? :: lexer.outerKeyStarts, keyStart? := none }
  return (lexer.allowKey true).pushIndicator 1 token

/-- Reads the end of a flow collection. -/
def closeFlow? (lexer : Lexer) (token : Token) : Option Lexer := do
  let lexer ← lexer.dropKey?
  let lexer := match lexer.outerKeyStarts with
    | start :: outer => { lexer with keyStart? := start, outerKeyStarts := outer }
    | [] => lexer
  return (lexer.allowKey false).pushIndicator 1 token

/-- Reads a comma in a flow collection. -/
def comma? (lexer : Lexer) : Option Lexer := do
  let lexer ← lexer.dropKey?
  return (lexer.allowKey true).pushIndicator 1 .comma

/-- Opens a block for an indicator that stands where a key may start. -/
def startBlock? (lexer : Lexer) (token : Token) : Option Lexer :=
  if lexer.inFlow then some lexer
  else if lexer.keyAllowed then
    some (lexer.openBlock lexer.cursor.column lexer.tokens.size token)
  else none

/-- Reads the dash before an item. -/
def dash? (lexer : Lexer) : Option Lexer := do
  let lexer ← lexer.startBlock? .blockSequence
  let lexer ← lexer.dropKey?
  return (lexer.allowKey true).pushIndicator 1 .dash

/-- Reads the question mark before a key. -/
def explicitKey? (lexer : Lexer) : Option Lexer := do
  let lexer ← lexer.startBlock? .blockMapping
  let lexer ← lexer.dropKey?
  return (lexer.allowKey (!lexer.inFlow)).pushIndicator 1 .key

/-- Reads the colon before a value. If a key may have started before, it has. -/
def value? (lexer : Lexer) : Option Lexer :=
  match lexer.keyStart? with
  | some start =>
    let lexer := { lexer with
      tokens := lexer.tokens.insertIdxIfInBounds start.position .key, keyStart? := none }
    let lexer := lexer.openBlock start.cursor.column start.position .blockMapping
    some ((lexer.allowKey false).pushIndicator 1 .value)
  | none => do
    let lexer ← lexer.startBlock? .blockMapping
    return (lexer.allowKey (!lexer.inFlow)).pushIndicator 1 .value

/-- Reads an anchor or an alias. -/
def anchor? (lexer : Lexer) (token : String → Token) : Option Lexer := do
  let lexer ← lexer.saveKey?
  let (name, cursor) ← Token.anchorName? lexer.cursor
  return { (lexer.allowKey false).push (token name) with cursor }

/-- Reads a tag. -/
def tag? (lexer : Lexer) : Option Lexer := do
  let lexer ← lexer.saveKey?
  let (token, cursor) ← Token.tag? lexer.inFlow lexer.cursor
  return { (lexer.allowKey false).push token with cursor }

/-- Adds a scalar whose text is given last character first. -/
def pushScalar (lexer : Lexer) (text : List Char) (isPlain : Bool) (cursor : Cursor) : Lexer :=
  { lexer.push (.scalar (String.ofList text.reverse) isPlain) with cursor }

/-- Reads a block scalar. -/
def blockScalar? (lexer : Lexer) (literal : Bool) : Option Lexer := do
  let lexer ← lexer.dropKey?
  let (text, cursor) ← Block.scan? literal lexer.indent lexer.cursor
  return (lexer.allowKey true).pushScalar text false cursor

/-- Reads a quoted scalar. -/
def quotedScalar? (lexer : Lexer) (double : Bool) : Option Lexer := do
  let lexer ← lexer.saveKey?
  let (text, cursor) ← Quoted.scan? double lexer.cursor
  return (lexer.allowKey false).pushScalar text false cursor

/-- Reads a plain scalar. -/
def plainScalar? (lexer : Lexer) : Option Lexer := do
  let lexer ← lexer.saveKey?
  let result ← Plain.scan? lexer.inFlow (lexer.indent + 1).toNat lexer.cursor
  return (lexer.allowKey result.broken).pushScalar result.text true result.cursor

/-- Whether a plain scalar may start here. -/
def startsPlain (lexer : Lexer) : Bool :=
  let cursor := lexer.cursor
  !cursor.satisfies 0 (fun c => isGap c || isIndicator c) ||
    (cursor.isAt '-' && !cursor.satisfies 1 isBlank) ||
    (!lexer.inFlow && (cursor.isAt '?' || cursor.isAt ':') && !cursor.isGapAt 1)

/-- Reads the token that starts with the given character. -/
def token? (lexer : Lexer) (c : Char) : Option Lexer :=
  let cursor := lexer.cursor
  let separated := cursor.isGapAt 1
  if cursor.column = 0 ∧ c = '%' then lexer.directive?
  else if cursor.isMark '-' then lexer.documentMark? .documentStart
  else if cursor.isMark '.' then lexer.documentMark? .documentEnd
  else if c = '[' then lexer.openFlow? .openSequence
  else if c = '\x7b' then lexer.openFlow? .openMapping
  else if c = ']' then lexer.closeFlow? .closeSequence
  else if c = '\x7d' then lexer.closeFlow? .closeMapping
  else if c = ',' then lexer.comma?
  else if c = '-' ∧ separated then lexer.dash?
  else if c = '?' ∧ (lexer.inFlow || separated) then lexer.explicitKey?
  else if c = ':' ∧ (lexer.inFlow || separated) then lexer.value?
  else if c = '*' then lexer.anchor? .alias
  else if c = '&' then lexer.anchor? .anchor
  else if c = '!' then lexer.tag?
  else if c = '|' ∧ !lexer.inFlow then lexer.blockScalar? true
  else if c = '>' ∧ !lexer.inFlow then lexer.blockScalar? false
  else if c = '\'' then lexer.quotedScalar? false
  else if c = '"' then lexer.quotedScalar? true
  else if lexer.startsPlain then lexer.plainScalar?
  else none

/-- Closes everything at the end of the text. -/
def finish? (lexer : Lexer) : Option (Array Token) := do
  let lexer ← (lexer.closeBlocks (-1)).dropKey?
  return lexer.tokens.push .textEnd

/-- Reads tokens up to the end of the text. Each takes at least one character. -/
def run? : List Char → Lexer → Option (Array Token)
  | [], _ => none
  | _ :: rounds, lexer => do
    let lexer ← (lexer.skipGaps lexer.cursor.rounds).checkKeys?
    let lexer := lexer.closeBlocks lexer.cursor.column
    match lexer.cursor.rest with
    | [] => lexer.finish?
    | c :: _ => run? rounds (← lexer.token? c)

end Lexer

/-- The tokens of a text, when it can be cut into tokens. -/
def Token.ofText? (text : String) : Option (List Token) :=
  if text.toList.all isAllowed then
    (Lexer.run? ('\n' :: Cursor.rounds (.ofText text)) (.ofText text)).map Array.toList
  else none

end PosterOverlay.Yaml
