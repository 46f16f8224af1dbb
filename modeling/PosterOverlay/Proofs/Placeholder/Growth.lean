import PosterOverlay.Proofs.Fields
import PosterOverlay.Proofs.Placeholder.Pieces

/-!
# How far a text grows

A scan has room to grow up to the length bound, and every piece that it takes over uses up no more
than its own bytes and the room. So a scan leaves a text that is no longer than before, or within
the bound. Any number of scans lead to such a text or to the value of a variable.
-/

namespace PosterOverlay

/-- The greatest of several numbers is within a bound exactly when all of them are. -/
theorem foldr_max_le_iff {numbers : List Nat} {first bound : Nat} :
    numbers.foldr max first ≤ bound ↔ first ≤ bound ∧ ∀ number ∈ numbers, number ≤ bound := by
  induction numbers with
  | nil => simp
  | cons number numbers ih =>
    rw [List.foldr_cons, Nat.max_le, ih, List.forall_mem_cons, and_left_comm]

namespace Placeholder

/-- The piece is left as it is by a scan that still has this room: it is a letter, or a placeholder
that stands for no text, or one whose text does not fit in. -/
def Stays (texts : Fields String) (room : Nat) (piece : Piece) : Prop :=
  ∀ name text, piece = .hole name → texts.get? name = some text → room < growth name text

/-- A scan takes a piece over as it is, or puts the text of a placeholder in its place. -/
theorem Scan.take_cases (texts : Fields String) (scan : Scan) (piece : Piece) :
    (Stays texts scan.room piece ∧ scan.take texts piece = scan.put piece.chars) ∨
      ∃ name text, piece = .hole name ∧ texts.get? name = some text ∧
        growth name text ≤ scan.room ∧
        scan.take texts piece =
          { scan.put text.toList with room := scan.room - growth name text } := by
  cases piece with
  | letter c => exact .inl ⟨nofun, rfl⟩
  | hole name =>
    rw [take]
    split
    · rename_i hnone
      refine .inl ⟨fun found text hfound htext => ?_, rfl⟩
      cases hfound
      rw [hnone] at htext
      cases htext
    · rename_i text htext
      split
      · rename_i hroom
        refine .inl ⟨fun found other hfound hother => ?_, rfl⟩
        cases hfound
        cases htext.symm.trans hother
        exact hroom
      · rename_i hroom
        exact .inr ⟨name, text, rfl, htext, Nat.le_of_not_lt hroom, rfl⟩

/-- The new text of a scan, as far as it has come. -/
def Scan.text (scan : Scan) : String :=
  String.ofList scan.done.reverse

/-- What is put goes to the end of the new text. -/
theorem Scan.text_put (scan : Scan) (text : List Char) :
    (scan.put text).text = scan.text ++ String.ofList text := by
  simp [Scan.text, Scan.put, String.ofList_append]

/-- Taking a piece over adds to the new text, beyond the room that it uses up, at most the bytes
of the piece. -/
theorem Scan.size_take_le (texts : Fields String) (scan : Scan) (piece : Piece) :
    (scan.take texts piece).text.utf8ByteSize + (scan.take texts piece).room ≤
      scan.text.utf8ByteSize + scan.room + (String.ofList piece.chars).utf8ByteSize := by
  rcases scan.take_cases texts piece with ⟨_, htake⟩ | ⟨name, text, hname, _, hroom, htake⟩
  · rw [htake, scan.text_put, String.utf8ByteSize_append]
    simp only [Scan.put]
    omega
  · have htext : (scan.take texts piece).text = scan.text ++ text := by
      rw [htake]
      simp [Scan.text, Scan.put, String.ofList_append]
    have hchars : (String.ofList piece.chars).utf8ByteSize = (written name).utf8ByteSize := by
      rw [hname, Piece.chars, String.ofList_toList]
    rw [htext, String.utf8ByteSize_append, hchars, htake]
    simp only [growth] at hroom ⊢
    omega

/-- Taking all pieces over adds at most their bytes and the room. -/
theorem Scan.size_foldl_take_le (texts : Fields String) (scan : Scan) (pieces : List Piece) :
    (pieces.foldl (Scan.take texts) scan).text.utf8ByteSize ≤
      scan.text.utf8ByteSize + scan.room +
        (String.ofList (pieces.flatMap Piece.chars)).utf8ByteSize := by
  induction pieces generalizing scan with
  | nil =>
    simp only [List.foldl_nil]
    omega
  | cons piece pieces ih =>
    have hstep := scan.size_take_le texts piece
    have hrest := ih (scan.take texts piece)
    rw [List.foldl_cons, List.flatMap_cons, String.ofList_append, String.utf8ByteSize_append]
    omega

/-- Splicing lets a text grow by no more than the room. -/
theorem size_splice_le (scope : Variables) (room : Nat) (text : String) :
    (splice scope room text).utf8ByteSize ≤ text.utf8ByteSize + room := by
  let texts := scope.textsFor ((pieces text).filterMap Piece.name?)
  calc (splice scope room text).utf8ByteSize
    _ ≤ (Scan.text ⟨[], room⟩).utf8ByteSize + room +
        (String.ofList ((pieces text).flatMap Piece.chars)).utf8ByteSize :=
      Scan.size_foldl_take_le texts ⟨[], room⟩ (pieces text)
    _ = text.utf8ByteSize + room := by
      rw [flatMap_chars_pieces, String.ofList_toList]
      simp [Scan.text, Nat.add_comm]

/-- A property that texts keep when they are spliced, and that every visible variable has, holds
of whatever scans make of a text. The induction is on the scans that are left. -/
theorem scanUpTo_induction {property : Value → Prop} {scope : Variables} {length : Nat}
    (hvisible : ∀ name value, scope.visible? name = some value → property value)
    (hsplice : ∀ text, property (.string text) →
      property (.string (splice scope (length - text.utf8ByteSize) text)))
    (depth : Nat) {text : String} (htext : property (.string text)) :
    property (scanUpTo scope length depth text) := by
  induction depth generalizing text with
  | zero => exact htext
  | succ depth ih =>
    have hscan : property (scan scope length text) := by
      unfold scan
      split
      · rename_i value hvalue
        obtain ⟨name, _, hname⟩ := Option.bind_eq_some_iff.mp hvalue
        exact hvisible name value hname
      · exact hsplice text htext
    rw [scanUpTo]
    split
    · rename_i next hnext
      split
      · exact htext
      · exact ih (hnext ▸ hscan)
    · exact hscan

end Placeholder

/-- What a placeholder stands for is a variable that is neither null nor a text with the placeholder
in it. -/
theorem Variables.visible?_eq_some_iff {scope : Variables} {name : String} {value : Value} :
    scope.visible? name = some value ↔
      Fields.get? scope name = some value ∧ value.isNull = false ∧
        value.mentions name = false := by
  simp [visible?, Option.filter_eq_some_iff]

/-- What a placeholder stands for is the value of a variable. -/
theorem Variables.get?_of_visible? {scope : Variables} {name : String} {value : Value}
    (h : scope.visible? name = some value) : Fields.get? scope name = some value :=
  (visible?_eq_some_iff.mp h).1

/-- Where all variables are within the length bound, names within it are resolved to names within
it. -/
theorem Limits.size_resolveName_le {limits : Limits} {scope : Variables} {name : String}
    (hscope : ∀ entry ∈ scope, entry.2.text.utf8ByteSize ≤ limits.length)
    (hname : name.utf8ByteSize ≤ limits.length) :
    (limits.resolveName scope name).utf8ByteSize ≤ limits.length := by
  let fits (value : Value) : Prop := value.text.utf8ByteSize ≤ limits.length
  have hresolved : fits (limits.resolveText scope name) := by
    refine Placeholder.scanUpTo_induction (fun found value hvalue => ?_) (fun text htext => ?_)
      limits.depth hname
    · exact hscope _ (Fields.mem_of_get? (Variables.get?_of_visible? hvalue))
    · have hsplice :=
        Placeholder.size_splice_le scope (limits.length - text.utf8ByteSize) text
      simp only [fits, Value.text] at htext ⊢
      omega
  exact hresolved

end PosterOverlay
