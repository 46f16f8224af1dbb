import Mathlib.Algebra.GroupWithZero.Nat
import PosterOverlay.Proofs.Placeholder.Pieces

/-!
# Scans with enough room

A scan whose text has room to grow replaces every placeholder that stands for something, all at
once. Whether the text is one placeholder or holds several then makes no difference to the text
that comes out.
-/

namespace PosterOverlay

/-- The characters that take the place of a piece; a placeholder that stands for nothing stays. -/
def Piece.replaced (scope : Variables) : Piece → List Char
  | letter c => [c]
  | hole name => ((scope.visible? name).map Value.text).elim (Placeholder.written name).toList
      String.toList

/-- The bytes by which a text grows when the piece is replaced. -/
def Piece.growth (scope : Variables) : Piece → Nat
  | letter _ => 0
  | hole name => ((scope.visible? name).map Value.text).elim 0 (Placeholder.growth name)

namespace Placeholder

/-- Every placeholder of a text is looked up for it. -/
theorem get?_textsFor_pieces (scope : Variables) {text name : String}
    (h : Piece.hole name ∈ pieces text) :
    (scope.textsFor ((pieces text).filterMap Piece.name?)).get? name =
      (scope.visible? name).map Value.text := by
  have hmem : name ∈ (pieces text).filterMap Piece.name? :=
    List.mem_filterMap.mpr ⟨.hole name, h, rfl⟩
  rw [Variables.get?_textsFor, if_pos hmem]

/-- With enough room every piece is replaced. The texts need only be known for the placeholders
that occur. -/
theorem foldl_take_of_room {scope : Variables} {texts : Fields String} {pieces : List Piece}
    (htexts : ∀ name, Piece.hole name ∈ pieces →
      texts.get? name = (scope.visible? name).map Value.text)
    {scan : Scan} (hroom : (pieces.map (Piece.growth scope)).sum ≤ scan.room) :
    (pieces.foldl (Scan.take texts) scan).done =
      (pieces.flatMap (Piece.replaced scope)).reverse ++ scan.done := by
  induction pieces generalizing scan with
  | nil => rfl
  | cons piece pieces ih =>
    have hlater (name : String) (hname : Piece.hole name ∈ pieces) :=
      htexts name (List.mem_cons_of_mem piece hname)
    rw [List.map_cons, List.sum_cons] at hroom
    rw [List.foldl_cons, List.flatMap_cons, List.reverse_append, List.append_assoc]
    cases piece with
    | letter c =>
      rw [ih hlater (by simpa [Piece.growth, Scan.take] using hroom)]
      rfl
    | hole name =>
      rw [Piece.growth] at hroom
      rw [Piece.replaced, Scan.take, htexts name List.mem_cons_self]
      cases hvisible : (scope.visible? name).map Value.text with
      | none =>
        rw [hvisible] at hroom
        dsimp only
        rw [ih hlater (by simpa [Scan.put] using hroom)]
        rfl
      | some text =>
        rw [hvisible, Option.elim_some] at hroom
        dsimp only
        rw [if_neg (by omega), ih hlater (by dsimp only; omega)]
        rfl

/-- With enough room all placeholders of a text are replaced at once. -/
theorem splice_of_room {scope : Variables} {room : Nat} {text : String}
    (hroom : ((pieces text).map (Piece.growth scope)).sum ≤ room) :
    splice scope room text = String.ofList ((pieces text).flatMap (Piece.replaced scope)) := by
  have htexts (name : String) (hname : Piece.hole name ∈ pieces text) :=
    get?_textsFor_pieces scope hname
  unfold splice
  dsimp only
  rw [foldl_take_of_room htexts hroom, List.append_nil, List.reverse_reverse]

/-- With enough room, one scan makes a value whose text is the old one with all of its placeholders
replaced, whether the text is a single placeholder or not. -/
theorem text_scan_of_room {scope : Variables} {length : Nat} {text : String}
    (hroom : ((pieces text).map (Piece.growth scope)).sum ≤ length - text.utf8ByteSize) :
    (scan scope length text).text =
      String.ofList ((pieces text).flatMap (Piece.replaced scope)) := by
  unfold scan
  split
  · rename_i value hvalue
    obtain ⟨name, hwhole, hvisible⟩ := Option.bind_eq_some_iff.mp hvalue
    simp [pieces_of_whole? hwhole, Piece.replaced, hvisible]
  · exact splice_of_room hroom

/-- A scan that makes no text makes the value of a placeholder. -/
theorem exists_visible_of_scan {scope : Variables} {length : Nat} {text : String}
    (h : (scan scope length text).string? = none) :
    ∃ name, scope.visible? name = some (scan scope length text) := by
  unfold scan at h ⊢
  split
  · rename_i value hvalue
    obtain ⟨name, _, hvisible⟩ := Option.bind_eq_some_iff.mp hvalue
    exact ⟨name, hvisible⟩
  · rename_i hvalue
    rw [hvalue] at h
    cases h

/-- A text that a scan does not change is not changed by any number of scans. -/
theorem scanUpTo_of_scan_eq {scope : Variables} {length : Nat} {text : String}
    (h : scan scope length text = .string text) (depth : Nat) :
    scanUpTo scope length depth text = .string text := by
  cases depth with
  | zero => rfl
  | succ depth => simp [scanUpTo, h]

/-- One more scan may be made first, without a look at whether it changes anything, provided that
scanning the text of its result again keeps it when the result is no text. -/
theorem text_scanUpTo_succ {scope : Variables} {length depth : Nat} {text : String}
    (hstop : (scan scope length text).string? = none →
      scan scope length (scan scope length text).text =
        .string (scan scope length text).text) :
    (scanUpTo scope length (depth + 1) text).text =
      (scanUpTo scope length depth (scan scope length text).text).text := by
  rw [scanUpTo]
  split
  · rename_i next hnext
    rw [hnext, Value.text]
    split
    · rename_i hsame
      rw [hsame, scanUpTo_of_scan_eq (hsame ▸ hnext)]
    · rfl
  · rename_i hnotext
    have hnone : (scan scope length text).string? = none := by
      cases hvalue : scan scope length text with
      | string next => exact absurd hvalue (hnotext next)
      | _ => rfl
    rw [scanUpTo_of_scan_eq (hstop hnone)]
    rfl

end Placeholder

end PosterOverlay
