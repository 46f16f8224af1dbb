import PosterOverlay.Proofs.Placeholder.Ending
import PosterOverlay.Proofs.Text.Splitting
import PosterOverlay.Template.Condition

/-!
# Checks with an ending

The name of a check may hold placeholders, and its ending is looked for in what the name is resolved
to. The ending itself is plain, so it is still there, behind what the name alone is resolved to,
provided that there is room for both. Then `.not` turns the check around, and `.exists` asks whether
the variable is bound to something. How much room it takes depends on the depth: variables that refer
to each other in a circle may grow with each scan until they fill all there is.
-/

namespace PosterOverlay

open Placeholder (replaceAll demand)

/-- A variable has a value exactly when it is bound to something that is neither null nor an
unresolved text. -/
theorem Variables.hasValue_iff {scope : Variables} {name : String} :
    scope.hasValue name = true ↔ ∃ value, Fields.get? scope name = some value ∧
      value.isNull = false ∧ value.isUnresolved = false := by
  rw [hasValue]
  cases Fields.get? scope name with
  | none => simp
  | some value => simp

namespace Check

variable {limits : Limits} {scope : Variables} {check : Check} {base : String}

/-- A check whose name is resolved to one with the ending `.exists` asks whether the variable has a
value. -/
theorem passes_of_exists (h : limits.resolveName scope check.name = base ++ ".exists") :
    check.passes limits scope =
      (scope.hasValue (limits.resolveName scope base) == check.expected.isTrue) := by
  simp only [passes, h, Text.stripEnd?_append]

/-- A check whose name is resolved to one with the ending `.not` denies that the variable meets what
is expected. -/
theorem passes_of_not (h : limits.resolveName scope check.name = base ++ ".not") :
    check.passes limits scope = !isMet check.expected (Fields.get? scope base) := by
  have hexists : Text.stripEnd? (base ++ ".not") ".exists" = none :=
    Text.stripEnd?_append_of_getLast? (c := 't') (d := 's') rfl rfl (by decide) base
  simp only [passes, h, hexists, Text.stripEnd?_append]

/-- A check whose name is resolved to one without an ending asks whether the variable meets what is
expected. -/
theorem passes_of_no_ending
    (hnot : Text.closesWith (limits.resolveName scope check.name) ".not" = false)
    (hexists : Text.closesWith (limits.resolveName scope check.name) ".exists" = false) :
    check.passes limits scope =
      isMet check.expected (Fields.get? scope (limits.resolveName scope check.name)) := by
  simp only [passes, Text.stripEnd?_of_closesWith hnot, Text.stripEnd?_of_closesWith hexists]

/-- The checks of a name with an ending mean what the ending says. -/
structure EndingsHold (limits : Limits) (scope : Variables) (name : String) : Prop where
  /-- The ending `.not` stands behind what the name is resolved to. -/
  resolveName_not :
    limits.resolveName scope (name ++ ".not") = limits.resolveName scope name ++ ".not"
  /-- The ending `.exists` stands behind what the name is resolved to. -/
  resolveName_exists :
    limits.resolveName scope (name ++ ".exists") = limits.resolveName scope name ++ ".exists"
  /-- Unless the name is resolved to one that has an ending itself, the check with `.not` passes
  exactly when the check without it fails. -/
  passes_not_iff : Text.closesWith (limits.resolveName scope name) ".not" = false →
    Text.closesWith (limits.resolveName scope name) ".exists" = false →
      ∀ expected, Check.passes ⟨name ++ ".not", expected⟩ limits scope = true ↔
        Check.passes ⟨name, expected⟩ limits scope = false
  /-- The check with `.exists` passes exactly when a yes is expected and the variable has a value, or
  a no is expected and it has none. Its name is what the resolved name is resolved to once more. -/
  passes_exists_iff : ∀ expected,
    Check.passes ⟨name ++ ".exists", expected⟩ limits scope = true ↔
      (expected.isTrue = true ↔ ∃ value,
        Fields.get? scope (limits.resolveName scope (limits.resolveName scope name)) = some value ∧
          value.isNull = false ∧ value.isUnresolved = false)

/-- Endings mean what they say as soon as resolving leaves them where they are. -/
theorem EndingsHold.of_resolveName {name : String}
    (hnot : limits.resolveName scope (name ++ ".not") = limits.resolveName scope name ++ ".not")
    (hexists : limits.resolveName scope (name ++ ".exists") =
      limits.resolveName scope name ++ ".exists") : EndingsHold limits scope name where
  resolveName_not := hnot
  resolveName_exists := hexists
  passes_not_iff hnot' hexists' expected := by
    have hwith : Check.passes ⟨name ++ ".not", expected⟩ limits scope =
        !isMet expected (Fields.get? scope (limits.resolveName scope name)) := passes_of_not hnot
    have hwithout : Check.passes ⟨name, expected⟩ limits scope =
        isMet expected (Fields.get? scope (limits.resolveName scope name)) :=
      passes_of_no_ending hnot' hexists'
    rw [hwith, hwithout, Bool.not_eq_true']
  passes_exists_iff expected := by
    have hwith : Check.passes ⟨name ++ ".exists", expected⟩ limits scope =
        (scope.hasValue (limits.resolveName scope (limits.resolveName scope name)) ==
          expected.isTrue) := passes_of_exists hexists
    rw [hwith, beq_iff_eq, ← Variables.hasValue_iff, Bool.eq_iff_iff]
    exact iff_comm

/-- Endings mean what they say when there is room for the longer one behind each of the texts that
the scans of the name go through. -/
theorem endingsHold_of_room (hscope : scope.AreScalar) {name : String}
    (hroom : ∀ count < limits.depth,
      demand scope ((replaceAll scope)^[count] name) + ".exists".utf8ByteSize ≤ limits.length) :
    EndingsHold limits scope name := by
  have hsize : ".not".utf8ByteSize ≤ ".exists".utf8ByteSize := by decide
  refine .of_resolveName (limits.resolveName_append hscope (by decide) fun count hcount => ?_)
    (limits.resolveName_append hscope (by decide) hroom)
  exact Nat.le_trans (Nat.add_le_add_left hsize _) (hroom count hcount)

end Check

/-- Replacing the placeholders of the text again and again leaves it within a bound. -/
def Variables.KeepsShort (scope : Variables) (text : String) : Prop :=
  ∃ bound, ∀ count, ((replaceAll scope)^[count] text).utf8ByteSize ≤ bound

namespace Check

/-- Among scalars, checks with an ending mean what the ending says wherever there is enough room,
also when their names hold placeholders and when variables refer to each other in circles. For each
depth there is a bound beyond which the room is enough, and one bound will do for all depths when the
circles do not make the name grow without end. -/
theorem endingsHold {scope : Variables} (hscope : scope.AreScalar) (name : String) :
    (∀ depth, ∃ bound, ∀ limits : Limits, limits.depth = depth → bound ≤ limits.length →
      EndingsHold limits scope name) ∧
    (scope.KeepsShort name → ∃ bound, ∀ limits : Limits, bound ≤ limits.length →
      EndingsHold limits scope name) := by
  constructor
  · intro depth
    let demands := (List.range depth).map fun count =>
      demand scope ((replaceAll scope)^[count] name) + ".exists".utf8ByteSize
    refine ⟨demands.foldr max 0, fun limits hdepth hbound => endingsHold_of_room hscope ?_⟩
    intro count hcount
    exact (foldr_max_le_iff.mp hbound).2 _
      (List.mem_map_of_mem (List.mem_range.mpr (hdepth ▸ hcount)))
  · rintro ⟨size, hsize⟩
    refine ⟨size + size * scope.longest + ".exists".utf8ByteSize,
      fun limits hbound => endingsHold_of_room hscope fun count _ => ?_⟩
    have hdemand := Placeholder.demand_le scope ((replaceAll scope)^[count] name)
    have hlongest := Nat.mul_le_mul_right scope.longest (hsize count)
    have hcount := hsize count
    omega

/-- In a circle that does not grow one bound will do for all depths. In one that grows there is a
bound for three scans. -/
theorem endingsHold_circle :
    let ring : Variables := [("east", .string "<<west>>"), ("west", .string "<<east>>")]
    let spiral : Variables := [("east", .string "<<west>>x"), ("west", .string "<<east>>x")]
    ring.AreScalar ∧ ring.KeepsShort "<<east>>" ∧
      (∃ bound, ∀ limits : Limits, bound ≤ limits.length → EndingsHold limits ring "<<east>>") ∧
      spiral.AreScalar ∧
      ∃ bound, ∀ limits : Limits, limits.depth = 3 → bound ≤ limits.length →
        EndingsHold limits spiral "<<east>>" := by
  intro ring spiral
  have hring : ring.AreScalar := .of_forall_mem (by decide)
  have hspiral : spiral.AreScalar := .of_forall_mem (by decide)
  have hnothing : Placeholder.IsPlain "" := by decide
  have hround : replaceAll ring "<<east>>" = "<<west>>" ++ "" ∧
      replaceAll ring "<<west>>" = "<<east>>" ++ "" := by decide +kernel
  have hkeeps : ring.KeepsShort "<<east>>" :=
    ⟨8, fun count => Nat.le_of_eq (Placeholder.measure_iterate_replaceAll hnothing hround.1
      hround.2 (fun text => String.utf8ByteSize_append) rfl count)⟩
  exact ⟨hring, hkeeps, (endingsHold hring "<<east>>").2 hkeeps, hspiral,
    (endingsHold hspiral "<<east>>").1 3⟩

/-- No bound will do for all depths in a circle that grows. With a depth that is large enough the
name alone fills the room to the last byte, and with the ending behind it a scan finds no room
earlier. -/
theorem ending_not_kept :
    let spiral : Variables := [("east", .string "<<west>>x"), ("west", .string "<<east>>x")]
    spiral.AreScalar ∧
      ¬ ∃ bound, ∀ limits : Limits, bound ≤ limits.length →
        limits.resolveName spiral ("<<east>>" ++ ".not") =
          limits.resolveName spiral "<<east>>" ++ ".not" := by
  intro spiral
  have hspiral : spiral.AreScalar := .of_forall_mem (by decide)
  have hletter : Placeholder.IsPlain "x" := by decide
  have hround : replaceAll spiral "<<east>>" = "<<west>>" ++ "x" ∧
      replaceAll spiral "<<west>>" = "<<east>>" ++ "x" := by decide +kernel
  refine ⟨hspiral, ?_⟩
  rintro ⟨bound, hbound⟩
  let limits : Limits := ⟨bound + 4, 0, 0, bound + 12⟩
  have hx : "x".utf8ByteSize = 1 := by decide
  have hname : (limits.resolveName spiral "<<east>>").utf8ByteSize = bound + 12 := by
    rw [limits.resolveName_of_room hspiral fun count hcount => ?_]
    · rw [Placeholder.measure_iterate_replaceAll hletter hround.1 hround.2
        (fun text => String.utf8ByteSize_append) rfl, hx, Nat.mul_one]
      exact Nat.add_comm 8 (bound + 4)
    · rw [Placeholder.measure_iterate_replaceAll hletter hround.1 hround.2
        (Placeholder.demand_append hletter spiral) (by decide +kernel), hx, Nat.mul_one]
      have hfirst : demand spiral "<<east>>" = 9 := by decide +kernel
      have hlast : count < bound + 4 := hcount
      have hlength : limits.length = bound + 12 := rfl
      omega
  have hboth : (limits.resolveName spiral ("<<east>>" ++ ".not")).utf8ByteSize ≤ bound + 12 := by
    have hvalues : ∀ entry ∈ spiral, entry.2.text.utf8ByteSize ≤ 12 := by decide
    have hlength : 12 ≤ limits.length := Nat.le_add_left 12 bound
    exact limits.size_resolveName_le (fun entry hentry => (hvalues entry hentry).trans hlength)
      hlength
  rw [hbound limits (Nat.le_add_right bound 12), String.utf8ByteSize_append, hname] at hboth
  have hnot : ".not".utf8ByteSize = 4 := by decide
  omega

end Check

end PosterOverlay
