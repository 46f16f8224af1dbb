import PosterOverlay.Proofs.Fields
import PosterOverlay.Proofs.Placeholder.Growth
import PosterOverlay.Proofs.Placeholder.Splicing

/-!
# Nested placeholders

An expression is a row of literals and of placeholders whose names are again expressions. Its
meaning is read off the tree from the inside out. Scans know nothing of the tree: they work on the
written text from left to right. Still each scan replaces just those placeholders of the tree whose
names are already plain, and once there are as many scans as placeholders stand inside each other,
the text that is left is the meaning.
-/

namespace PosterOverlay

namespace Placeholder

/-- A text without angle brackets. -/
def IsPlain (text : String) : Prop :=
  ∀ c ∈ text.toList, isNameChar c = true

instance : DecidablePred IsPlain := fun text =>
  List.decidableBAll (fun c => isNameChar c = true) text.toList

/-- A text that a placeholder may have as its name. -/
def IsName (text : String) : Prop :=
  text ≠ "" ∧ IsPlain text

instance : DecidablePred IsName := fun _ => inferInstanceAs (Decidable (_ ∧ _))

/-- A text whose first letter is missing from another one does not occur in it. -/
theorem occursIn_of_not_mem {c : Char} (part : List Char) {text : List Char} (h : c ∉ text) :
    Text.occursIn (c :: part) text = false := by
  induction text with
  | nil => rfl
  | cons d text ih =>
    rw [List.mem_cons, not_or] at h
    simp [Text.occursIn, List.isPrefixOf, h.1, ih h.2]

/-- An angle bracket is missing from a plain text. -/
theorem IsPlain.not_mem {text : String} (h : IsPlain text) {c : Char}
    (hc : isNameChar c = false) : c ∉ text.toList := by
  intro hmem
  rw [h c hmem] at hc
  cases hc

/-- A text of plain letters does not hold any placeholder. -/
theorem IsPlain.not_contains {text : String} (h : IsPlain text) (name : String) :
    Text.contains text (written name) = false := by
  rw [Text.contains, toList_written]
  exact occursIn_of_not_mem _ (h.not_mem (by decide))

/-- The marks of a placeholder take up four bytes. -/
theorem size_written (name : String) :
    (written name).utf8ByteSize = name.utf8ByteSize + 4 := by
  have hmark : "<<".utf8ByteSize = 2 ∧ ">>".utf8ByteSize = 2 := by decide
  rw [written, String.utf8ByteSize_append, String.utf8ByteSize_append]
  omega

/-- Nothing looks like a placeholder in a plain text. -/
theorem IsPlain.not_occurs {text : String} (h : IsPlain text) : occurs text = false := by
  have hclose : Text.occursIn ['>', '>'] text.toList = false :=
    occursIn_of_not_mem ['>'] (h.not_mem (by decide))
  rw [occurs, ← Bool.not_eq_true]
  intro hopens
  rw [occursIn_of_opensAndCloses hopens] at hclose
  cases hclose

/-- No placeholder opens where there are no two opening brackets. -/
theorem opening?_of_not_prefix {text : List Char} (h : ¬ ['<', '<'] <+: text) :
    opening? text = none := by
  unfold opening?
  split
  · exact absurd ⟨_, rfl⟩ h
  · rfl

/-- No placeholder opens where, after the opening brackets and the plain text behind them, there is
another opening bracket, or where there is no such text at all. -/
theorem opening?_of_front {front : List Char} (hfront : ∀ c ∈ front, isNameChar c = true)
    {c : Char} (hc : isNameChar c = false) (h : front = [] ∨ c = '<') (rest : List Char) :
    opening? ('<' :: '<' :: (front ++ c :: rest)) = none := by
  obtain ⟨htake, hdrop⟩ := span_isNameChar hfront hc rest
  rcases h with rfl | rfl
  · simp [opening?, hc]
  · cases front <;> simp_all [opening?]

/-- The plain front of a text is cut into its letters. -/
theorem piecesAfter_plain (found : List Piece) {front : List Char}
    (hfront : ∀ c ∈ front, isNameChar c = true) (rest : List Char) :
    piecesAfter found (front ++ rest) =
      piecesAfter ((front.map Piece.letter).reverse ++ found) rest := by
  induction front generalizing found with
  | nil => rfl
  | cons c front ih =>
    obtain ⟨hc, hfront⟩ := List.forall_mem_cons.mp hfront
    have hne : '<' ≠ c := by
      rintro rfl
      exact absurd hc (by decide)
    have hopen : opening? (c :: (front ++ rest)) = none := opening?_of_not_prefix (by simp [hne])
    rw [List.cons_append, piecesAfter_cons found hopen, ih _ hfront]
    simp

end Placeholder

/-! ### Expressions and their meaning -/

/-- A literal of an expression. -/
structure Literal where
  /-- The text that it stands for. -/
  text : String
  /-- It holds no angle bracket. -/
  plain : Placeholder.IsPlain text

/-- The literal of that text, when the text is plain. -/
def Literal.of? (text : String) : Option Literal :=
  if h : Placeholder.IsPlain text then some ⟨text, h⟩ else none

/-- A row of literals and placeholders. -/
inductive Expression where
  /-- Nothing. -/
  | empty
  /-- A literal, and what follows it. -/
  | text (literal : Literal) (rest : Expression)
  /-- A placeholder with the expression between its marks, and what follows it. -/
  | hole (body rest : Expression)

/-- The text that a placeholder of that name stands for, when it is a name and the variable is
there and not null. -/
def Variables.meaning? (scope : Variables) (name : String) : Option String :=
  if Placeholder.IsName name then
    ((Fields.get? scope name).filter fun value => !value.isNull).map Value.text
  else none

/-- The text that a placeholder of that name stands for, as a literal when it is plain. -/
def Variables.literal? (scope : Variables) (name : String) : Option Literal :=
  (scope.meaning? name).bind Literal.of?

/-- Every variable has a plain text. -/
def Variables.ArePlain (scope : Variables) : Prop :=
  ∀ name value, Fields.get? scope name = some value → Placeholder.IsPlain value.text

namespace Expression

/-- The expression as it is written. -/
def written : Expression → String
  | empty => ""
  | text literal rest => literal.text ++ rest.written
  | hole body rest => Placeholder.written body.written ++ rest.written

/-- How many placeholders stand inside each other. -/
def depth : Expression → Nat
  | empty => 0
  | text _ rest => rest.depth
  | hole body rest => max (body.depth + 1) rest.depth

/-- The text that the expression means. A placeholder is looked up under the meaning of what
stands between its marks; one that stands for nothing means itself. -/
def meaning (scope : Variables) : Expression → String
  | empty => ""
  | text literal rest => literal.text ++ rest.meaning scope
  | hole body rest =>
    let name := body.meaning scope
    (scope.meaning? name).getD (Placeholder.written name) ++ rest.meaning scope

/-- The pieces of the written expression: the placeholders whose names are already plain, and
letters. -/
def pieces : Expression → List Piece
  | empty => []
  | text literal rest => literal.text.toList.map Piece.letter ++ rest.pieces
  | hole body rest =>
    (if Placeholder.IsName body.written then [.hole body.written]
      else .letter '<' :: .letter '<' :: (body.pieces ++ [.letter '>', .letter '>'])) ++ rest.pieces

/-- The expression after one scan: the placeholders that stand for something and whose names are
already plain have become literals. -/
def scanned (scope : Variables) : Expression → Expression
  | empty => empty
  | text literal rest => text literal (rest.scanned scope)
  | hole body rest =>
    match scope.literal? body.written with
    | some literal => text literal (rest.scanned scope)
    | none => hole (body.scanned scope) (rest.scanned scope)

/-- An expression that starts with a placeholder is not plain. -/
theorem not_isPlain_hole (body rest : Expression) :
    ¬ Placeholder.IsPlain (hole body rest).written := by
  intro h
  exact absurd (h '<' (by simp [written, Placeholder.toList_written])) (by decide)

/-- An expression that starts with a literal is plain when the rest of it is. -/
theorem isPlain_text_iff {literal : Literal} {rest : Expression} :
    Placeholder.IsPlain (text literal rest).written ↔ Placeholder.IsPlain rest.written := by
  rw [written, Placeholder.IsPlain, String.toList_append, List.forall_mem_append]
  exact and_iff_right literal.plain

/-- An expression that is written in more than plain letters has an opening mark first. -/
theorem isPlain_or_opens (e : Expression) : Placeholder.IsPlain e.written ∨
    ∃ front back, (∀ c ∈ front, Placeholder.isNameChar c = true) ∧
      e.written.toList = front ++ '<' :: '<' :: back := by
  induction e with
  | empty => exact .inl (by decide)
  | text literal rest ih =>
    rcases ih with hplain | ⟨front, back, hfront, hrest⟩
    · exact .inl (isPlain_text_iff.mpr hplain)
    · right
      exact ⟨literal.text.toList ++ front, back,
        List.forall_mem_append.mpr ⟨literal.plain, hfront⟩,
        by rw [written, String.toList_append, hrest, List.append_assoc]⟩
  | hole body rest _ _ =>
    right
    exact ⟨[], body.written.toList ++ '>' :: '>' :: rest.written.toList, by simp,
      by simp [written, Placeholder.toList_written]⟩

/-- Where the expression between the marks is not a name, no placeholder opens at the mark. -/
theorem opening?_mark {body : Expression} (h : ¬ Placeholder.IsName body.written)
    (tail : List Char) :
    Placeholder.opening? ('<' :: '<' :: (body.written.toList ++ '>' :: tail)) = none ∧
      Placeholder.opening? ('<' :: (body.written.toList ++ '>' :: tail)) = none := by
  have hclose : Placeholder.isNameChar '>' = false := by decide
  have hopen : Placeholder.isNameChar '<' = false := by decide
  rcases body.isPlain_or_opens with hplain | ⟨front, back, hfront, hbody⟩
  · have hempty : body.written.toList = [] := by
      rw [String.toList_eq_nil_iff]
      exact Classical.byContradiction fun hne => h ⟨hne, hplain⟩
    rw [hempty]
    exact ⟨Placeholder.opening?_of_front (by simp) hclose (.inl rfl) tail,
      Placeholder.opening?_of_not_prefix (by simp)⟩
  · rw [hbody, List.append_assoc]
    refine ⟨Placeholder.opening?_of_front hfront hopen (.inr rfl) _, ?_⟩
    cases front with
    | nil => exact Placeholder.opening?_of_front hfront hopen (.inl rfl) _
    | cons c front =>
      have hne : '<' ≠ c := by
        rintro rfl
        rw [hfront _ List.mem_cons_self] at hopen
        cases hopen
      exact Placeholder.opening?_of_not_prefix (by simp [hne])

/-- The written expression is cut into its pieces, whatever stands before and behind it. -/
theorem piecesAfter_written (e : Expression) (found : List Piece) (rest : List Char) :
    Placeholder.piecesAfter found (e.written.toList ++ rest) =
      Placeholder.piecesAfter (e.pieces.reverse ++ found) rest := by
  induction e generalizing found rest with
  | empty => rfl
  | text literal later ih =>
    rw [written, String.toList_append, List.append_assoc,
      Placeholder.piecesAfter_plain found literal.plain, ih, pieces]
    simp
  | hole body later ihbody ihlater =>
    rw [written, String.toList_append, List.append_assoc, pieces]
    by_cases hname : Placeholder.IsName body.written
    · rw [Placeholder.piecesAfter_hole found
        (Placeholder.opening?_eq_some_iff.mpr ⟨hname.1, hname.2, rfl⟩), ihlater, if_pos hname]
      simp
    · obtain ⟨hfirst, hsecond⟩ := opening?_mark hname ('>' :: (later.written.toList ++ rest))
      have htext : (Placeholder.written body.written).toList ++ (later.written.toList ++ rest) =
          '<' :: '<' :: (body.written.toList ++ '>' :: '>' :: (later.written.toList ++ rest)) := by
        simp [Placeholder.toList_written]
      have hclose (tail : List Char) : Placeholder.opening? ('>' :: tail) = none :=
        Placeholder.opening?_of_not_prefix (by simp)
      rw [htext, Placeholder.piecesAfter_cons _ hfirst, Placeholder.piecesAfter_cons _ hsecond,
        ihbody, Placeholder.piecesAfter_cons _ (hclose _), Placeholder.piecesAfter_cons _ (hclose _),
        ihlater, if_neg hname]
      simp

/-- Cutting the written expression gives its pieces. -/
theorem pieces_written (e : Expression) : Placeholder.pieces e.written = e.pieces := by
  have h := e.piecesAfter_written [] []
  rwa [List.append_nil, List.append_nil, Placeholder.piecesAfter_nil, List.reverse_reverse] at h

/-! ### One scan on the tree -/

/-- A plain expression holds no placeholder, so a scan leaves it as it is. -/
theorem scanned_of_isPlain (scope : Variables) {e : Expression}
    (h : Placeholder.IsPlain e.written) : e.scanned scope = e := by
  induction e with
  | empty => rfl
  | text literal rest ih => rw [scanned, ih (isPlain_text_iff.mp h)]
  | hole body rest _ _ => exact absurd h (not_isPlain_hole body rest)

/-- A plain expression means what it says. -/
theorem meaning_of_isPlain (scope : Variables) {e : Expression}
    (h : Placeholder.IsPlain e.written) : e.meaning scope = e.written := by
  induction e with
  | empty => rfl
  | text literal rest ih => rw [meaning, written, ih (isPlain_text_iff.mp h)]
  | hole body rest _ _ => exact absurd h (not_isPlain_hole body rest)

end Expression

/-- What has a meaning is a name, and the meaning is the text of a variable. -/
theorem Variables.exists_of_meaning? {scope : Variables} {name text : String}
    (h : scope.meaning? name = some text) :
    Placeholder.IsName name ∧ ∃ value, Fields.get? scope name = some value ∧ value.text = text := by
  rw [meaning?, Option.ite_none_right_eq_some, Option.map_eq_some_iff] at h
  obtain ⟨hname, value, hvalue, htext⟩ := h
  exact ⟨hname, value, (Option.filter_eq_some_iff.mp hvalue).1, htext⟩

/-- Where there is a literal, its text is the meaning. -/
theorem Variables.meaning?_of_literal? {scope : Variables} {name : String} {literal : Literal}
    (h : scope.literal? name = some literal) : scope.meaning? name = some literal.text := by
  obtain ⟨text, hmeaning, hliteral⟩ := Option.bind_eq_some_iff.mp h
  unfold Literal.of? at hliteral
  split at hliteral
  · cases hliteral
    exact hmeaning
  · cases hliteral

/-- A value with a plain text holds no placeholder. -/
theorem Value.not_mentions {value : Value} (h : Placeholder.IsPlain value.text) (name : String) :
    value.mentions name = false := by
  cases value with
  | string s => exact h.not_contains name
  | _ => rfl

section Plain

variable {scope : Variables} (hscope : scope.ArePlain)

include hscope

/-- No plain variable refers to itself, so under a name it is seen unless it is null. -/
theorem Variables.ArePlain.text_visible? {name : String} (hname : Placeholder.IsName name) :
    (scope.visible? name).map Value.text = scope.meaning? name := by
  rw [meaning?, if_pos hname, visible?]
  cases hvalue : Fields.get? scope name with
  | none => rfl
  | some value => simp [Option.filter, Value.not_mentions (hscope name value hvalue)]

/-- Every meaning is a literal. -/
theorem Variables.ArePlain.text_literal? (name : String) :
    (scope.literal? name).map Literal.text = scope.meaning? name := by
  rw [literal?]
  cases hmeaning : scope.meaning? name with
  | none => rfl
  | some text =>
    obtain ⟨_, value, hvalue, rfl⟩ := exists_of_meaning? hmeaning
    simp [Literal.of?, hscope name value hvalue]

namespace Expression

/-- One scan replaces the placeholders of the tree whose names are already plain. -/
theorem flatMap_replaced_pieces (e : Expression) :
    e.pieces.flatMap (Piece.replaced scope) = (e.scanned scope).written.toList := by
  induction e with
  | empty => rfl
  | text literal rest ih =>
    rw [pieces, List.flatMap_append, ih, scanned, written, String.toList_append, List.flatMap_map]
    simp [Piece.replaced]
  | hole body rest ihbody ihrest =>
    have hliteral := hscope.text_literal? body.written
    rw [pieces, List.flatMap_append, ihrest, scanned]
    by_cases hname : Placeholder.IsName body.written
    · rw [if_pos hname, List.flatMap_singleton, Piece.replaced, hscope.text_visible? hname,
        ← hliteral]
      cases scope.literal? body.written with
      | none => simp [written, scanned_of_isPlain scope hname.2]
      | some literal => simp [written]
    · have hnone : scope.literal? body.written = none := by
        rw [Variables.literal?, Variables.meaning?, if_neg hname]
        rfl
      rw [if_neg hname, hnone, written, String.toList_append, Placeholder.toList_written]
      simp [Piece.replaced, ihbody]

end Expression

end Plain

namespace Expression

/-- A scan does not change what an expression means. -/
theorem meaning_scanned (scope : Variables) (e : Expression) :
    (e.scanned scope).meaning scope = e.meaning scope := by
  induction e with
  | empty => rfl
  | text literal rest ih => rw [scanned, meaning, meaning, ih]
  | hole body rest ihbody ihrest =>
    rw [scanned]
    cases hliteral : scope.literal? body.written with
    | none => simp only [meaning, ihbody, ihrest]
    | some literal =>
      have hmeaning := Variables.meaning?_of_literal? hliteral
      have hplain := (Variables.exists_of_meaning? hmeaning).1.2
      simp only [meaning, meaning_of_isPlain scope hplain, hmeaning, Option.getD_some, ihrest]

/-! ### How many scans it takes, and how long the text gets -/

/-- The scans that it takes until the expression is written as what it means. A placeholder that
stands for nothing takes none of its own. -/
def pending (scope : Variables) : Expression → Nat
  | empty => 0
  | text _ rest => rest.pending scope
  | hole body rest =>
    let own := if (scope.meaning? (body.meaning scope)).isSome then 1 else 0
    max (body.pending scope + own) (rest.pending scope)

/-- It takes no more scans than placeholders stand inside each other. -/
theorem pending_le_depth (scope : Variables) (e : Expression) : e.pending scope ≤ e.depth := by
  induction e with
  | empty => exact Nat.le_refl 0
  | text literal rest ih => exact ih
  | hole body rest ihbody ihrest =>
    rw [pending, depth]
    split <;> omega

/-- An expression that takes no scan is written as what it means. -/
theorem written_of_pending {scope : Variables} {e : Expression} (h : e.pending scope = 0) :
    e.written = e.meaning scope := by
  induction e with
  | empty => rfl
  | text literal rest ih => rw [written, meaning, ih h]
  | hole body rest ihbody ihrest =>
    rw [pending] at h
    split at h
    · omega
    · rename_i hnone
      rw [Option.not_isSome_iff_eq_none] at hnone
      rw [written, meaning, ihbody (by omega), ihrest (by omega), hnone]
      rfl

/-- Each scan is one of those that it takes. -/
theorem pending_scanned_le {scope : Variables} (hscope : scope.ArePlain) (e : Expression) :
    (e.scanned scope).pending scope ≤ e.pending scope - 1 := by
  induction e with
  | empty => exact Nat.le_refl 0
  | text literal rest ih => exact ih
  | hole body rest ihbody ihrest =>
    rw [scanned]
    cases hliteral : scope.literal? body.written with
    | some literal =>
      rw [pending, pending]
      omega
    | none =>
      have hmeaning := hscope.text_literal? body.written
      rw [hliteral, Option.map_none] at hmeaning
      rw [pending, pending, meaning_scanned]
      split
      · rename_i hsome
        -- The name stands for something only once it is known, so it is not known yet.
        have hbody : body.pending scope ≠ 0 := by
          intro hzero
          rw [← written_of_pending hzero, ← hmeaning] at hsome
          cases hsome
        omega
      · omega

/-- A bound on the bytes that the expression takes up before and after each scan, when every
variable takes up at most the bytes given. -/
def weight (longest : Nat) : Expression → Nat
  | empty => 0
  | text literal rest => literal.text.utf8ByteSize + rest.weight longest
  | hole body rest => 4 + longest + body.weight longest + rest.weight longest

end Expression

/-- The bytes of the longest text of a variable. -/
def Variables.longest (scope : Variables) : Nat :=
  (scope.map fun field => field.2.text.utf8ByteSize).foldr max 0

/-- No variable is longer than the longest one. -/
theorem Variables.size_le_longest {scope : Variables} {name : String} {value : Value}
    (h : Fields.get? scope name = some value) : value.text.utf8ByteSize ≤ scope.longest :=
  (foldr_max_le_iff.mp (Nat.le_refl scope.longest)).2 _
    (List.mem_map_of_mem (Fields.mem_of_get? h))

/-- No text grows by more than the longest variable when one of its pieces is replaced. -/
theorem Piece.growth_le_longest (scope : Variables) (piece : Piece) :
    piece.growth scope ≤ scope.longest := by
  cases piece with
  | letter c => exact Nat.zero_le _
  | hole name =>
    rw [growth]
    cases hvisible : scope.visible? name with
    | none => exact Nat.zero_le _
    | some value =>
      have hsize := Variables.size_le_longest (Variables.get?_of_visible? hvisible)
      simp only [Option.map_some, Option.elim_some, Placeholder.growth]
      omega

namespace Expression

/-- An expression is no heavier after a scan. -/
theorem weight_scanned_le (scope : Variables) (e : Expression) :
    (e.scanned scope).weight scope.longest ≤ e.weight scope.longest := by
  induction e with
  | empty => exact Nat.le_refl 0
  | text literal rest ih =>
    rw [scanned, weight, weight]
    omega
  | hole body rest ihbody ihrest =>
    rw [scanned]
    cases hliteral : scope.literal? body.written with
    | none =>
      rw [weight, weight]
      omega
    | some literal =>
      obtain ⟨_, value, hvalue, htext⟩ :=
        Variables.exists_of_meaning? (Variables.meaning?_of_literal? hliteral)
      have hsize := Variables.size_le_longest hvalue
      rw [weight, weight, ← htext]
      omega

/-- The weight leaves room for all placeholders of the expression to be replaced. -/
theorem size_add_growth_le (scope : Variables) (e : Expression) :
    e.written.utf8ByteSize + (e.pieces.map (Piece.growth scope)).sum ≤
      e.weight scope.longest := by
  induction e with
  | empty => exact Nat.le_refl 0
  | text literal rest ih =>
    have hletters : ((literal.text.toList.map Piece.letter).map (Piece.growth scope)).sum = 0 := by
      rw [List.map_map]
      exact List.sum_eq_zero_iff_forall_eq_nat.mpr (by simp [Piece.growth])
    rw [written, pieces, weight, String.utf8ByteSize_append, List.map_append, List.sum_append]
    omega
  | hole body rest ihbody ihrest =>
    rw [written, pieces, weight, String.utf8ByteSize_append, List.map_append, List.sum_append,
      Placeholder.size_written]
    split
    · have hgrowth := Piece.growth_le_longest scope (.hole body.written)
      simp only [List.map_singleton, List.sum_singleton]
      omega
    · simp only [List.map_cons, List.map_append, List.sum_append, List.sum_cons, Piece.growth,
        List.map_nil, List.sum_nil]
      omega

/-! ### Resolving -/

/-- As many scans as it takes leave the meaning of an expression, if there is room for it. The
induction is on the scans: each one makes a scan on the tree. -/
theorem text_scanUpTo_written {scope : Variables} (hscope : scope.ArePlain) {length depth : Nat}
    {e : Expression} (hdepth : e.pending scope ≤ depth)
    (hlength : e.weight scope.longest ≤ length) :
    (Placeholder.scanUpTo scope length depth e.written).text = e.meaning scope := by
  induction depth generalizing e with
  | zero => exact written_of_pending (Nat.le_zero.mp hdepth)
  | succ depth ih =>
    have hroom := e.size_add_growth_le scope
    have hscan : (Placeholder.scan scope length e.written).text = (e.scanned scope).written := by
      rw [Placeholder.text_scan_of_room (by rw [pieces_written]; omega), pieces_written,
        flatMap_replaced_pieces hscope, String.ofList_toList]
    have hpending := pending_scanned_le hscope e
    have hweight := weight_scanned_le scope e
    rw [Placeholder.text_scanUpTo_succ, hscan, ih (by omega) (by omega), meaning_scanned]
    -- A value that is no text comes from a variable, so its text is plain and stays.
    intro hnotext
    obtain ⟨name, hvisible⟩ := Placeholder.exists_visible_of_scan hnotext
    have hplain := hscope name _ (Variables.get?_of_visible? hvisible)
    exact Placeholder.scan_of_not_occurs scope length hplain.not_occurs

/-- Placeholders are evaluated from the inside out: with a depth of at least as many placeholders
as stand inside each other, and with enough room, an expression is resolved to its meaning. -/
theorem resolveName_written (e : Expression) {scope : Variables} (hscope : scope.ArePlain) :
    ∃ bound, ∀ limits : Limits, e.depth ≤ limits.depth → bound ≤ limits.length →
      limits.resolveName scope e.written = e.meaning scope :=
  ⟨e.weight scope.longest, fun _ hdepth hlength =>
    text_scanUpTo_written hscope (Nat.le_trans (e.pending_le_depth scope) hdepth) hlength⟩

/-- The name of a font is put together from a number. A placeholder whose name holds another one
that stands for nothing stays, as do marks with nothing between them. -/
theorem resolveName_written_font :
    let scope : Variables :=
      [("rating_num", .int 1), ("rating1_font", .string "Arial"), ("gone", .null)]
    let literal (text : String) (plain : Placeholder.IsPlain text) : Expression → Expression :=
      .text ⟨text, plain⟩
    let font : Expression := literal "rating" (by decide)
      (.hole (literal "rating_num" (by decide) .empty) (literal "_font" (by decide) .empty))
    let stuck : Expression := literal "a" (by decide)
      (.hole (literal "gone" (by decide) .empty) .empty)
    let e : Expression := .hole font (.hole stuck (.hole .empty .empty))
    scope.ArePlain ∧ e.depth = 2 ∧
      e.written = "<<rating<<rating_num>>_font>><<a<<gone>>>><<>>" ∧
      ∃ bound, ∀ limits : Limits, e.depth ≤ limits.depth → bound ≤ limits.length →
        limits.resolveName scope e.written = "Arial<<a<<gone>>>><<>>" := by
  intro scope literal font stuck e
  have hscope : scope.ArePlain := fun name value hvalue =>
    (by decide +kernel : ∀ field ∈ scope, Placeholder.IsPlain field.2.text) _
      (Fields.mem_of_get? hvalue)
  have hmeaning : e.meaning scope = "Arial<<a<<gone>>>><<>>" := by decide +kernel
  exact ⟨hscope, by decide, by decide +kernel, hmeaning ▸ resolveName_written e hscope⟩

end Expression

end PosterOverlay
