import PosterOverlay.Yaml.Folding

/-!
# Plain scalars

A plain scalar has no quotes. It ends before a colon that a gap follows, before a comment, before
a document mark, in a flow collection before its indicators, and elsewhere before a line that is
not indented deeply enough.
-/

namespace PosterOverlay.Yaml.Plain

/-- Whether a plain scalar ends before the first of these characters. -/
def endsBefore (inFlow : Bool) : List Char → Bool
  | ':' :: next :: _ => isGap next
  | [':'] => true
  | c :: _ => isGap c || (inFlow && isFlowIndicator c)
  | [] => true

/-- Whether a colon is misplaced here: in a flow collection, before one of its indicators. -/
def isMisplaced (inFlow : Bool) : List Char → Bool
  | ':' :: next :: _ => inFlow && (isFlowIndicator next || next == '?')
  | _ => false

/-- Reads a run of characters without gaps in front of `taken`, which holds them last one first.
Fails at a misplaced colon. -/
def word? (inFlow : Bool) (taken : List Char) : List Char → Option (List Char × List Char)
  | [] => some (taken, [])
  | c :: rest =>
    if isMisplaced inFlow (c :: rest) then none
    else if endsBefore inFlow (c :: rest) then some (taken, c :: rest)
    else word? inFlow (c :: taken) rest

/-- What reading a plain scalar yields. -/
structure Result where
  /-- The text, last character first. -/
  text : List Char
  /-- Whether a line ended after the text. -/
  broken : Bool
  /-- What follows. -/
  cursor : Cursor

/-- Reads words and gaps in turn. `indent` is the least column of a further line outside flow
collections; `gap` is the gap before this place. -/
def read? (inFlow : Bool) (indent : Nat) :
    List Char → List Char → Gap → Cursor → Option Result
  | [], _, _, _ => none
  | _ :: rounds, text, gap, cursor =>
    if cursor.isDocumentMark || cursor.isAt '#' then some ⟨text, gap.broken, cursor⟩
    else do
      let (word, _) ← word? inFlow [] cursor.rest
      let next := cursor.advance word.length
      let (text, gap) := if word.isEmpty then (text, gap) else (word ++ gap.folded ++ text, .empty)
      if !next.satisfies 0 isGap then return ⟨text, gap.broken, next⟩
      let (gap, next) ← gap.read? indent next
      if !inFlow && next.column < indent then return ⟨text, gap.broken, next⟩
      read? inFlow indent rounds text gap next

/-- Reads the plain scalar that starts here. -/
def scan? (inFlow : Bool) (indent : Nat) (cursor : Cursor) : Option Result :=
  read? inFlow indent cursor.rounds [] .empty cursor

end PosterOverlay.Yaml.Plain
