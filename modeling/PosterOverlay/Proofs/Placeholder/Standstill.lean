import PosterOverlay.Proofs.Placeholder.Iteration
import PosterOverlay.Proofs.Placeholder.Lookup

/-!
# When a scan changes nothing

Scans end when one of them yields the text that it was given. This is a test of texts: it does not
ask whether a placeholder was replaced, and several replacements of different lengths could in
principle make up for each other. They never do. Whenever a scan yields its own text, every
placeholder in it is blocked, and no replacement that could be made is left out.
-/

namespace PosterOverlay

namespace Placeholder

/-- What a scan has put out stays at the front. -/
theorem exists_foldl_take (texts : Fields String) (scan : Scan) (pieces : List Piece) :
    ∃ out, (pieces.foldl (Scan.take texts) scan).done.reverse = scan.done.reverse ++ out := by
  induction pieces generalizing scan with
  | nil => exact ⟨[], by simp⟩
  | cons piece pieces ih =>
    obtain ⟨out, hout⟩ := ih (scan.take texts piece)
    rw [List.foldl_cons, hout]
    rcases scan.take_cases texts piece with ⟨_, htake⟩ | ⟨name, text, _, _, _, htake⟩
    · exact ⟨piece.chars ++ out, by simp [htake, Scan.put]⟩
    · exact ⟨text.toList ++ out, by simp [htake, Scan.put]⟩

/-- Where all pieces stay, a scan puts them out as they are. -/
theorem foldl_take_of_stays {texts : Fields String} {pieces : List Piece} {scan : Scan}
    (h : ∀ piece ∈ pieces, Stays texts scan.room piece) :
    (pieces.foldl (Scan.take texts) scan).done.reverse =
      scan.done.reverse ++ pieces.flatMap Piece.chars := by
  induction pieces generalizing scan with
  | nil => simp
  | cons piece pieces ih =>
    obtain ⟨hpiece, hpieces⟩ := List.forall_mem_cons.mp h
    rcases scan.take_cases texts piece with ⟨_, htake⟩ | ⟨name, text, hname, htext, hroom, _⟩
    · have hput : ∀ piece' ∈ pieces, Stays texts (scan.put piece.chars).room piece' := hpieces
      rw [List.foldl_cons, htake, ih hput]
      simp [Scan.put]
    · exact absurd (hpiece name text hname htext) (Nat.not_lt_of_le hroom)

/-- Suppose that no placeholder occurs in the text which it stands for, and that a scan puts out
its pieces again, at the place where they were or further behind. Then it left every piece as it is
and where it was. The induction is on the pieces: a placeholder that were replaced would have to
fill a place that begins no later and ends no earlier than its own, so it would find itself in its
text. -/
theorem stays_of_foldl_take {texts : Fields String}
    (hown : ∀ name text, texts.get? name = some text → ¬ (written name).toList <:+: text.toList)
    {pieces : List Piece} {scan : Scan} (shift : List Char)
    (h : (pieces.foldl (Scan.take texts) scan).done.reverse =
      scan.done.reverse ++ (shift ++ pieces.flatMap Piece.chars)) :
    shift = [] ∧ ∀ piece ∈ pieces, Stays texts scan.room piece := by
  induction pieces generalizing scan shift with
  | nil => simpa using h
  | cons piece pieces ih =>
    rw [List.foldl_cons, List.flatMap_cons] at h
    obtain ⟨out, hout⟩ := exists_foldl_take texts (scan.take texts piece) pieces
    -- The new text, cut behind what stands for the piece, is the old one, cut behind the piece.
    have hcut (front : List Char)
        (hfront : (scan.take texts piece).done.reverse = scan.done.reverse ++ front) :
        front ++ out = (shift ++ piece.chars) ++ pieces.flatMap Piece.chars := by
      rw [hout, hfront, List.append_assoc, List.append_right_inj] at h
      rw [h, List.append_assoc]
    have hlater {later : List Char} (hout' : out = later ++ pieces.flatMap Piece.chars) :
        later = [] ∧ ∀ other ∈ pieces, Stays texts (scan.take texts piece).room other :=
      ih later (hout.trans (congrArg _ hout'))
    rcases scan.take_cases texts piece with ⟨hstays, htake⟩ | ⟨name, text, hname, htext, _, htake⟩
    · have hcut := hcut piece.chars (by simp [htake, Scan.put])
      obtain ⟨later, hlater'⟩ : piece.chars <+: shift ++ piece.chars :=
        List.prefix_of_prefix_length_le ⟨out, hcut⟩ (List.prefix_append _ _) (by simp)
      rw [← hlater', List.append_assoc, List.append_right_inj] at hcut
      obtain ⟨rfl, hrest⟩ := hlater hcut
      rw [htake] at hrest
      refine ⟨?_, List.forall_mem_cons.mpr ⟨hstays, hrest⟩⟩
      simpa using hlater'
    · exfalso
      have hcut := hcut text.toList (by simp [htake, Scan.put])
      have hchars : piece.chars = (written name).toList := hname ▸ rfl
      rcases List.append_eq_append_iff.mp hcut with ⟨later, hlater', hout'⟩ | ⟨more, hmore, _⟩
      · obtain ⟨rfl, _⟩ := hlater hout'
        rw [List.append_nil, hchars] at hlater'
        exact hown name text htext ⟨shift, [], by simp [hlater']⟩
      · rw [hchars] at hmore
        exact hown name text htext ⟨shift, more, hmore.symm⟩

/-- A placeholder that has a name is found where it is the whole text. -/
theorem whole?_written {name : String} (h : IsName name) : whole? (written name) = some name := by
  have hopen : opening? (written name).toList = some (name, []) :=
    opening?_eq_some_iff.mpr ⟨h.1, h.2, (List.append_nil _).symm⟩
  rw [whole?, hopen]

end Placeholder

namespace Variables

/-- No sequence and no mapping among the variables has its own placeholder in its text. -/
def ContainersApart (scope : Variables) : Prop :=
  ∀ name value, Fields.get? scope name = some value →
    value.sequence?.isSome ∨ value.mapping?.isSome →
      Text.contains value.text (Placeholder.written name) = false

/-- It is enough to look at each of the variables as they are listed. -/
theorem ContainersApart.of_forall_mem {scope : Variables}
    (h : ∀ entry ∈ scope, entry.2.sequence?.isSome ∨ entry.2.mapping?.isSome →
      Text.contains entry.2.text (Placeholder.written entry.1) = false) :
    scope.ContainersApart :=
  fun _ _ hvalue => h _ (Fields.mem_of_get? hvalue)

/-- What a placeholder stands for does not hold the placeholder again. -/
theorem ContainersApart.not_contains {scope : Variables} (h : scope.ContainersApart)
    {name : String} {value : Value} (hvalue : scope.visible? name = some value) :
    Text.contains value.text (Placeholder.written name) = false := by
  obtain ⟨hget, _, hmentions⟩ := Variables.visible?_eq_some_iff.mp hvalue
  cases value with
  | string s => exact hmentions
  | sequence items => exact h name _ hget (.inl rfl)
  | mapping fields => exact h name _ hget (.inr rfl)
  | _ => exact (Value.isPlain_text rfl rfl rfl).not_contains name

end Variables

namespace Placeholder

/-- Why a placeholder stays in a text that is scanned. -/
inductive IsBlocked (scope : Variables) (length : Nat) (text name : String) : Prop where
  /-- There is no such variable. -/
  | unbound (h : Fields.get? scope name = none)
  /-- The variable is null. -/
  | null (h : Fields.get? scope name = some .null)
  /-- The variable is a text that holds the placeholder. -/
  | selfReference {s : String} (h : Fields.get? scope name = some (.string s))
      (hs : Text.contains s (written name) = true)
  /-- The placeholder is not the whole text, and there is no room for the text of the variable. -/
  | tooLong {value : Value} (h : Fields.get? scope name = some value) (hpart : text ≠ written name)
      (hroom : length - text.utf8ByteSize < growth name value.text)

/-- A placeholder is blocked exactly when it stands for nothing, or for something that does not fit
in beside the rest of the text. -/
theorem isBlocked_iff {scope : Variables} {length : Nat} {text name : String} :
    IsBlocked scope length text name ↔
      ∀ value, scope.visible? name = some value →
        text ≠ written name ∧ length - text.utf8ByteSize < growth name value.text := by
  constructor
  · intro h value hvalue
    obtain ⟨hget, hnull, hmentions⟩ := Variables.visible?_eq_some_iff.mp hvalue
    cases h with
    | unbound h =>
      rw [h] at hget
      cases hget
    | null h =>
      cases h.symm.trans hget
      cases hnull
    | selfReference h hs =>
      cases h.symm.trans hget
      rw [Value.mentions, hs] at hmentions
      cases hmentions
    | tooLong h hpart hroom =>
      cases h.symm.trans hget
      exact ⟨hpart, hroom⟩
  · intro h
    cases hget : Fields.get? scope name with
    | none => exact .unbound hget
    | some value =>
      by_cases hvisible : scope.visible? name = some value
      · obtain ⟨hpart, hroom⟩ := h value hvisible
        exact .tooLong hget hpart hroom
      · rw [Variables.visible?_eq_some_iff] at hvisible
        cases value with
        | null => exact .null hget
        | string s =>
          have hs : Text.contains s (written name) = true := by
            simpa [hget, Value.isNull, Value.mentions] using hvisible
          exact .selfReference hget hs
        | _ => simp [hget, Value.isNull, Value.mentions] at hvisible

/-- Every placeholder in the text is blocked. -/
def AllBlocked (scope : Variables) (length : Nat) (text : String) : Prop :=
  ∀ name, IsName name → Text.contains text (written name) = true →
    IsBlocked scope length text name

/-- Splicing yields the same text exactly when no placeholder stands for a text that fits in. -/
theorem splice_eq_self_iff {scope : Variables} (hscope : scope.ContainersApart) (room : Nat)
    (text : String) :
    splice scope room text = text ↔
      ∀ name, Piece.hole name ∈ pieces text → ∀ value, scope.visible? name = some value →
        room < growth name value.text := by
  let texts := scope.textsFor ((pieces text).filterMap Piece.name?)
  have hown (name found : String) (hfound : texts.get? name = some found) :
      ¬ (written name).toList <:+: found.toList := by
    rw [Variables.get?_textsFor, Option.ite_none_right_eq_some, Option.map_eq_some_iff] at hfound
    obtain ⟨_, value, hvalue, rfl⟩ := hfound
    rw [← Text.occursIn_iff_infix, Bool.not_eq_true]
    exact hscope.not_contains hvalue
  have hsplice : splice scope room text = text ↔
      ((pieces text).foldl (Scan.take texts) ⟨[], room⟩).done.reverse =
        (pieces text).flatMap Piece.chars := by
    rw [flatMap_chars_pieces, ← String.toList_inj]
    unfold splice
    rw [String.toList_ofList]
  rw [hsplice]
  constructor
  · intro h name hname value hvalue
    have hstays := (stays_of_foldl_take hown [] h).2 _ hname
    refine hstays name value.text rfl ?_
    rw [get?_textsFor_pieces scope hname, hvalue, Option.map_some]
  · intro h
    refine foldl_take_of_stays fun piece hpiece name found hname hfound => ?_
    subst hname
    rw [get?_textsFor_pieces scope hpiece, Option.map_eq_some_iff] at hfound
    obtain ⟨value, hvalue, rfl⟩ := hfound
    exact h name hpiece value hvalue

/-- One scan yields the same text exactly when every placeholder in it is blocked. -/
theorem scan_eq_self_iff {scope : Variables} (hscope : scope.ContainersApart) (length : Nat)
    (text : String) : scan scope length text = .string text ↔ AllBlocked scope length text := by
  have hblocked : AllBlocked scope length text ↔
      ∀ name, Piece.hole name ∈ pieces text → ∀ value, scope.visible? name = some value →
        text ≠ written name ∧ length - text.utf8ByteSize < growth name value.text := by
    simp only [AllBlocked, hole_mem_pieces_iff, and_imp, isBlocked_iff]
  rw [hblocked, scan]
  cases hwhole : (whole? text).bind scope.visible? with
  | some value =>
    obtain ⟨name, hname, hvalue⟩ := Option.bind_eq_some_iff.mp hwhole
    have htext := eq_written_of_whole? hname
    constructor
    · intro h
      -- The variable would be a text that is its own placeholder.
      have hvalue' : value = .string text := h
      have hself : Text.contains (written name) (written name) = true :=
        Text.occursIn_iff_infix.mpr List.infix_rfl
      have happart := hscope.not_contains hvalue
      rw [hvalue', Value.text, htext, hself] at happart
      cases happart
    · intro h
      exact absurd htext (h name (hole_mem_pieces_of_whole? hname) value hvalue).1
  | none =>
    dsimp only
    rw [Value.string.injEq, splice_eq_self_iff hscope]
    refine forall₂_congr fun name hname => forall₂_congr fun value hvalue => ?_
    refine (and_iff_right ?_).symm
    rintro rfl
    rw [whole?_written (hole_mem_pieces_iff.mp hname).1, Option.bind_some, hvalue] at hwhole
    cases hwhole

end Placeholder

namespace Limits

open Placeholder

/-- A single scan yields its own text exactly when every placeholder in it is blocked. So wherever
the scans come to a standstill, be it at once or later, no placeholder is left that could be
replaced: a text that they end with, and that one scan more would not change, has all its
placeholders blocked. -/
theorem resolveText_standstill {scope : Variables} (hscope : scope.ContainersApart)
    (limits : Limits) (text : String) :
    (({ limits with depth := 1 } : Limits).resolveText scope text = .string text ↔
        AllBlocked scope limits.length text) ∧
      ∀ start, limits.resolveText scope start = .string text →
        ({ limits with depth := limits.depth + 1 } : Limits).resolveText scope start =
          .string text →
        AllBlocked scope limits.length text := by
  have hscan := scan_eq_self_iff hscope limits.length text
  refine ⟨⟨fun h => ?_, fun h => ?_⟩, fun start h hmore => ?_⟩
  · exact hscan.mp (scan_eq_self_of_scanUpTo 0 rfl h)
  · exact scanUpTo_of_scan_eq (hscan.mpr h) 1
  · exact hscan.mp (scan_eq_self_of_scanUpTo limits.depth h hmore)

/-- Placeholders of all kinds that cannot be replaced: a variable that is not there, one that is
null, one that holds its own placeholder and one whose text is too long. -/
theorem resolveText_standstill_blocked :
    let scope : Variables :=
      [("front", .string "<<gone>>"), ("empty", .null), ("loop", .string "a <<loop>>"),
        ("long", .string "0123456789abcdef"), ("many", .sequence [.string "<<gone>>"])]
    let limits : Limits := ⟨1, 1, 1, 40⟩
    let text := "<<gone>> <<empty>> <<loop>> <<long>>"
    scope.ContainersApart ∧
      limits.resolveText scope "<<front>> <<empty>> <<loop>> <<long>>" = .string text ∧
      limits.resolveText scope text = .string text ∧
      AllBlocked scope limits.length text := by
  intro scope limits text
  have hscope : scope.ContainersApart := .of_forall_mem (by decide +kernel)
  have hfirst : limits.resolveText scope "<<front>> <<empty>> <<loop>> <<long>>" =
      .string text := Value.string?_eq_some_iff.mp (by decide +kernel)
  have hsettled := resolveText_standstill hscope limits text
  have hblocked := hsettled.2 _ hfirst (Value.string?_eq_some_iff.mp (by decide +kernel))
  exact ⟨hscope, hfirst, hsettled.1.mpr hblocked, hblocked⟩

end Limits

end PosterOverlay
