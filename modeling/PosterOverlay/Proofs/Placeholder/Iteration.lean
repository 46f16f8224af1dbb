import Mathlib.Logic.Function.Iterate
import PosterOverlay.Proofs.Value.Plain

/-!
# Resolving as iterated scanning

Resolving a text stops early, either because a scan changed nothing or because it yielded a value
that is no text. The stops only save work: the result is that of a single step done as often as the
depth says. So a result that one more step keeps is final, and it is resolved to itself. Where all
variables are scalars and there is enough room, the step does nothing but replace all placeholders
of the text at once.
-/

namespace PosterOverlay

namespace Placeholder

/-- One more scan: a text is scanned, and a value that is no text is finished. -/
def rescan (scope : Variables) (length : Nat) : Value → Value
  | .string text => scan scope length text
  | value => value

/-- A value that is no text is finished. -/
theorem rescan_of_string?_eq_none (scope : Variables) (length : Nat) {value : Value}
    (h : value.string? = none) : rescan scope length value = value := by
  cases value with
  | string s => cases h
  | _ => rfl

/-- Stopping early makes no difference: scanning up to a number of times is scanning that many
times. The induction is on the scans, and both stops are at a value that another scan keeps. -/
theorem scanUpTo_eq_iterate (scope : Variables) (length depth : Nat) (text : String) :
    scanUpTo scope length depth text = (rescan scope length)^[depth] (.string text) := by
  induction depth generalizing text with
  | zero => rfl
  | succ depth ih =>
    rw [scanUpTo, Function.iterate_succ_apply, rescan]
    cases hscan : scan scope length text with
    | string next =>
      dsimp only
      split
      · rename_i hsame
        have hfixed : rescan scope length (.string text) = .string text := hsame ▸ hscan
        rw [hsame, Function.iterate_fixed hfixed]
      · exact ih next
    | _ =>
      exact (Function.iterate_fixed (rescan_of_string?_eq_none scope length rfl) depth).symm

/-- Further scans make no difference to a value that one more scan keeps. -/
theorem scanUpTo_of_le {scope : Variables} {length depth more : Nat} {text : String}
    (hle : depth ≤ more)
    (hkept : rescan scope length (scanUpTo scope length depth text) =
      scanUpTo scope length depth text) :
    scanUpTo scope length more text = scanUpTo scope length depth text := by
  obtain ⟨extra, rfl⟩ := Nat.exists_eq_add_of_le' hle
  rw [scanUpTo_eq_iterate, Function.iterate_add_apply, ← scanUpTo_eq_iterate,
    Function.iterate_fixed hkept]

/-- Where one more scan makes no difference to a text, a scan of it yields the same text. -/
theorem scan_eq_self_of_scanUpTo {scope : Variables} {length : Nat} (depth : Nat)
    {start text : String} (h : scanUpTo scope length depth start = .string text)
    (hmore : scanUpTo scope length (depth + 1) start = .string text) :
    scan scope length text = .string text := by
  rw [scanUpTo_eq_iterate] at h hmore
  rwa [Function.iterate_succ_apply', h] at hmore

/-- All placeholders of a text replaced at once; those that stand for nothing stay. -/
def replaceAll (scope : Variables) (text : String) : String :=
  String.ofList ((pieces text).flatMap (Piece.replaced scope))

/-- The bytes of a text together with those by which it grows when all of its placeholders are
replaced. -/
def demand (scope : Variables) (text : String) : Nat :=
  text.utf8ByteSize + ((pieces text).map (Piece.growth scope)).sum

/-- Nothing is replaced in a text without placeholders. -/
theorem replaceAll_of_not_occurs (scope : Variables) {text : String}
    (h : occurs text = false) : replaceAll scope text = text := by
  have hpieces : pieces text = text.toList.map Piece.letter :=
    piecesAfter_of_not_opensAndCloses [] h
  rw [replaceAll, hpieces, List.flatMap_map]
  simp [Piece.replaced]

end Placeholder

/-- Whether the value holds no other values. -/
def Value.isScalar : Value → Bool
  | sequence _ => false
  | mapping _ => false
  | _ => true

/-- Every variable is null, a truth value, a number or a text. -/
def Variables.AreScalar (scope : Variables) : Prop :=
  ∀ name value, Fields.get? scope name = some value → value.isScalar = true

/-- Variables are scalars when each entry is. -/
theorem Variables.AreScalar.of_forall_mem {scope : Variables}
    (h : ∀ entry ∈ scope, entry.2.isScalar = true) : scope.AreScalar :=
  fun _ _ hvalue => h _ (Fields.mem_of_get? hvalue)

namespace Placeholder

/-- Among scalars a scan yields a scalar. -/
theorem isScalar_rescan {scope : Variables} (hscope : scope.AreScalar) (length : Nat)
    {value : Value} (hvalue : value.isScalar = true) :
    (rescan scope length value).isScalar = true := by
  cases value with
  | string text =>
    rw [rescan, scan]
    split
    · rename_i found hfound
      obtain ⟨name, _, hvisible⟩ := Option.bind_eq_some_iff.mp hfound
      exact hscope name found (Variables.get?_of_visible? hvisible)
    · rfl
  | _ => exact hvalue

/-- With enough room, one more scan of a scalar replaces all placeholders in its text: a scalar
that is no text has none. -/
theorem text_rescan {scope : Variables} {length : Nat} {value : Value}
    (hvalue : value.isScalar = true) (hroom : demand scope value.text ≤ length) :
    (rescan scope length value).text = replaceAll scope value.text := by
  have hplain (hnotext : value.string? = none) (hsequence : value.sequence? = none)
      (hmapping : value.mapping? = none) :
      (rescan scope length value).text = replaceAll scope value.text := by
    have hnone := (Value.isPlain_text hnotext hsequence hmapping).not_occurs
    rw [rescan_of_string?_eq_none scope length hnotext, replaceAll_of_not_occurs scope hnone]
  cases value with
  | string text =>
    rw [demand, Value.text] at hroom
    exact text_scan_of_room (by omega)
  | sequence items => cases hvalue
  | mapping fields => cases hvalue
  | _ => exact hplain rfl rfl rfl

/-- As long as there is room for it, any number of scans among scalars leave the text in which all
placeholders were replaced that many times. -/
theorem text_iterate_rescan {scope : Variables} (hscope : scope.AreScalar) {length depth : Nat}
    {text : String}
    (hroom : ∀ count < depth, demand scope ((replaceAll scope)^[count] text) ≤ length) :
    ((rescan scope length)^[depth] (.string text)).isScalar = true ∧
      ((rescan scope length)^[depth] (.string text)).text = (replaceAll scope)^[depth] text := by
  induction depth with
  | zero => exact ⟨rfl, rfl⟩
  | succ depth ih =>
    obtain ⟨hscalar, htext⟩ := ih fun count hcount => hroom count (Nat.lt_succ_of_lt hcount)
    have hnow : demand scope ((rescan scope length)^[depth] (.string text)).text ≤ length := by
      rw [htext]
      exact hroom depth (Nat.lt_succ_self depth)
    rw [Function.iterate_succ_apply', Function.iterate_succ_apply']
    exact ⟨isScalar_rescan hscope length hscalar, by rw [text_rescan hscalar hnow, htext]⟩

end Placeholder

namespace Limits

open Placeholder

/-- Scanning converges for good. A result that is no text stays the same at every greater depth.
So does a text that one more scan leaves the same, and this text is resolved to itself at any depth
whatever. -/
theorem resolveText_converged (limits : Limits) (scope : Variables) (text : String) :
    let resolved (depth : Nat) (text : String) : Value :=
      ({ limits with depth } : Limits).resolveText scope text
    ∀ depth,
      ((resolved depth text).string? = none →
        ∀ more, depth ≤ more → resolved more text = resolved depth text) ∧
      ∀ result, resolved depth text = .string result →
        resolved (depth + 1) text = .string result →
        (∀ more, depth ≤ more → resolved more text = .string result) ∧
          ∀ other, resolved other result = .string result := by
  intro resolved depth
  refine ⟨fun hnotext more hle => ?_, fun result hresult hnext => ?_⟩
  · exact scanUpTo_of_le hle (rescan_of_string?_eq_none scope limits.length hnotext)
  · have hkept : scan scope limits.length result = .string result :=
      scan_eq_self_of_scanUpTo depth hresult hnext
    refine ⟨fun more hle => ?_, fun other => scanUpTo_of_scan_eq hkept other⟩
    have hfinal : rescan scope limits.length (resolved depth text) = resolved depth text := by
      rw [hresult]
      exact hkept
    exact (scanUpTo_of_le hle hfinal).trans hresult

/-- A chain ends in a sequence, and a circle ends when there is no room to go on. -/
theorem resolveText_converged_chain :
    let scope : Variables := [("link", .string "<<list>>"),
      ("list", .sequence [.string "<<link>>"]), ("loop", .string "<<back>>."),
      ("back", .string "<<loop>>!")]
    let resolved (depth : Nat) (text : String) : Value :=
      (⟨depth, 0, 0, 12⟩ : Limits).resolveText scope text
    (resolved 2 "<<link>>").string? = none ∧
      resolved 9 "<<link>>" = resolved 2 "<<link>>" ∧
      resolved 6 "<<loop>>" = .string "<<loop>>!.!." ∧
      resolved 9 "<<loop>>" = .string "<<loop>>!.!." ∧
      resolved 1 "<<loop>>!.!." = .string "<<loop>>!.!." := by
  intro scope resolved
  have hlink : (resolved 2 "<<link>>").string? = none := by decide +kernel
  have hloop : resolved 6 "<<loop>>" = .string "<<loop>>!.!." :=
    Value.string?_eq_some_iff.mp (by decide +kernel)
  have hmore : resolved 7 "<<loop>>" = .string "<<loop>>!.!." :=
    Value.string?_eq_some_iff.mp (by decide +kernel)
  obtain ⟨hlater, hagain⟩ :=
    (resolveText_converged ⟨0, 0, 0, 12⟩ scope "<<loop>>" 6).2 _ hloop hmore
  exact ⟨hlink, (resolveText_converged ⟨0, 0, 0, 12⟩ scope "<<link>>" 2).1 hlink 9 (by decide),
    hloop, hlater 9 (by decide), hagain 1⟩

/-- Where all variables are scalars and there is enough room, resolving a name replaces all of its
placeholders at once, as often as the depth says. It does not matter when a placeholder is the
whole text, nor whether the variables refer to each other in circles. -/
theorem resolveName_eq_iterate {scope : Variables} (hscope : scope.AreScalar) (depth : Nat)
    (name : String) :
    ∃ bound, ∀ limits : Limits, limits.depth = depth → bound ≤ limits.length →
      limits.resolveName scope name = (replaceAll scope)^[depth] name := by
  let demands := (List.range depth).map fun count => demand scope ((replaceAll scope)^[count] name)
  refine ⟨demands.foldr max 0, fun limits hdepth hbound => ?_⟩
  have hroom (count : Nat) (hcount : count < depth) :
      demand scope ((replaceAll scope)^[count] name) ≤ limits.length :=
    (foldr_max_le_iff.mp hbound).2 _ (List.mem_map_of_mem (List.mem_range.mpr hcount))
  rw [resolveName, resolveText, scanUpTo_eq_iterate, hdepth]
  exact (text_iterate_rescan hscope hroom).2

/-- The circle is entered through a name that is itself put together, and left in the middle of a
round because the depth is used up. -/
theorem resolveName_eq_iterate_circle :
    let scope : Variables := [("first", .string "<<second>>,"), ("second", .string "<<first>>;"),
      ("start", .string "first"), ("count", .int 5)]
    scope.AreScalar ∧
      ∃ bound, ∀ limits : Limits, limits.depth = 3 → bound ≤ limits.length →
        limits.resolveName scope "<<<<start>>>><<count>>" = "<<first>>;,5" := by
  intro scope
  have hscope : scope.AreScalar := fun name value hvalue =>
    (by decide : ∀ field ∈ scope, field.2.isScalar = true) _ (Fields.mem_of_get? hvalue)
  have hreplaced : (replaceAll scope)^[3] "<<<<start>>>><<count>>" = "<<first>>;,5" := by
    decide +kernel
  exact ⟨hscope, hreplaced ▸ resolveName_eq_iterate hscope 3 "<<<<start>>>><<count>>"⟩

end Limits

end PosterOverlay
