import PosterOverlay.Proofs.Placeholder.Absence
import PosterOverlay.Proofs.Value.Distinct
import PosterOverlay.Template.Condition

/-!
# The first clause that matches

A conditional takes the value of the first clause written in it whose checks all pass, and its
default where no clause matches. All else that is written in it has no influence: clauses that do
not match, whatever follows the one that does, items that are no clauses, and the order of the
entries within a clause.
-/

namespace PosterOverlay

variable {limits : Limits} {scope : Variables}

namespace Clause

/-- All entries of a written clause pass as checks, apart from its value. -/
def Matches (limits : Limits) (scope : Variables) (clause : Fields Value) : Prop :=
  ∀ entry ∈ clause, entry.1 ≠ "value" → Check.passes ⟨entry.1, entry.2⟩ limits scope = true

theorem isMatch_ofFields_iff {clause : Fields Value} :
    (ofFields clause).isMatch limits scope = true ↔ Matches limits scope clause := by
  rw [isMatch, ofFields, List.all_map, List.all_eq_true]
  constructor
  · intro h entry hentry hname
    exact h entry (List.mem_filter.mpr ⟨hentry, by simpa using hname⟩)
  · intro h entry hentry
    obtain ⟨hmem, hname⟩ := List.mem_filter.mp hentry
    exact h entry hmem (by simpa using hname)

/-- Whether a clause matches does not depend on the order of its entries. -/
theorem matches_perm_iff {clause later : Fields Value} (h : clause.Perm later) :
    Matches limits scope clause ↔ Matches limits scope later := by
  unfold Matches
  simp only [h.mem_iff]

end Clause

namespace Conditional

/-- The value that the first matching clause among some items gives, null when it states none. -/
def chosen? (limits : Limits) (scope : Variables) (items : List Value) : Option Value :=
  ((items.filterMap Value.mapping?).find? fun clause =>
    (Clause.ofFields clause).isMatch limits scope).map fun clause =>
      (clause.get? "value").getD .null

theorem clausesOf_eq (conditions : Option Value) :
    clausesOf conditions =
      ((conditions.getD .null).items.filterMap Value.mapping?).map Clause.ofFields := by
  cases conditions with
  | none => rfl
  | some conditions => cases conditions <;> rfl

/-- A written conditional is read, and it chooses the value of its first matching clause, or else
its default. -/
theorem ofValue?_mapping (raw : Fields Value) :
    ∃ conditional, ofValue? (.mapping raw) = some conditional ∧
      ∀ limits scope, conditional.evaluate limits scope =
        limits.resolve scope
          ((chosen? limits scope (Value.under (.mapping raw) "conditions").items).getD
            (Value.under (.mapping raw) "default")) := by
  refine ⟨⟨_, clausesOf (raw.get? "conditions")⟩, rfl, fun limits scope => ?_⟩
  rw [evaluate, choice, clausesOf_eq, List.find?_map, Option.map_map]
  rfl

/-! ## Looking for the first match -/

theorem chosen?_append (front back : List Value) :
    chosen? limits scope (front ++ back) =
      (chosen? limits scope front).or (chosen? limits scope back) := by
  rw [chosen?, List.filterMap_append, List.find?_append, Option.map_or]
  rfl

theorem chosen?_cons_of_matches {clause : Fields Value}
    (h : Clause.Matches limits scope clause) (rest : List Value) :
    chosen? limits scope (.mapping clause :: rest) = some ((clause.get? "value").getD .null) := by
  have hmatch := Clause.isMatch_ofFields_iff.mpr h
  simp only [chosen?, List.filterMap_cons, Value.mapping?, List.find?_cons, hmatch,
    Option.map_some]

theorem chosen?_cons_of_not_matches {clause : Fields Value}
    (h : ¬Clause.Matches limits scope clause) (rest : List Value) :
    chosen? limits scope (.mapping clause :: rest) = chosen? limits scope rest := by
  have hmatch : (Clause.ofFields clause).isMatch limits scope = false := by
    rw [← Bool.not_eq_true, Clause.isMatch_ofFields_iff]
    exact h
  simp only [chosen?, List.filterMap_cons, Value.mapping?, List.find?_cons, hmatch]

theorem chosen?_cons_of_no_clause {item : Value} (h : item.mapping? = none) (rest : List Value) :
    chosen? limits scope (item :: rest) = chosen? limits scope rest := by
  rw [chosen?, List.filterMap_cons_none h, chosen?]

/-- A clause may be replaced by one that matches alike and has the same value. -/
theorem chosen?_cons_congr {clause later : Fields Value}
    (hmatches : Clause.Matches limits scope clause ↔ Clause.Matches limits scope later)
    (hvalue : clause.get? "value" = later.get? "value") (rest : List Value) :
    chosen? limits scope (.mapping clause :: rest) =
      chosen? limits scope (.mapping later :: rest) := by
  by_cases h : Clause.Matches limits scope clause
  · rw [chosen?_cons_of_matches h, chosen?_cons_of_matches (hmatches.mp h), hvalue]
  · rw [chosen?_cons_of_not_matches h, chosen?_cons_of_not_matches (mt hmatches.mpr h)]

/-- The first match gives the value. -/
theorem chosen?_of_first {items : List Value} {before after : List (Fields Value)}
    {clause : Fields Value} (hsplit : items.filterMap Value.mapping? = before ++ clause :: after)
    (hbefore : ∀ earlier ∈ before, ¬Clause.Matches limits scope earlier)
    (h : Clause.Matches limits scope clause) :
    chosen? limits scope items = some ((clause.get? "value").getD .null) := by
  have hfind : (items.filterMap Value.mapping?).find? (fun clause =>
      (Clause.ofFields clause).isMatch limits scope) = some clause := by
    refine List.find?_eq_some_iff_append.mpr
      ⟨Clause.isMatch_ofFields_iff.mpr h, before, after, hsplit, fun earlier hearlier => ?_⟩
    rw [Bool.not_eq_true', ← Bool.not_eq_true]
    exact mt Clause.isMatch_ofFields_iff.mp (hbefore earlier hearlier)
  rw [chosen?, hfind, Option.map_some]

/-- Without a match there is no value. -/
theorem chosen?_of_none {items : List Value}
    (h : ∀ clause ∈ items.filterMap Value.mapping?, ¬Clause.Matches limits scope clause) :
    chosen? limits scope items = none := by
  have hfind : (items.filterMap Value.mapping?).find? (fun clause =>
      (Clause.ofFields clause).isMatch limits scope) = none :=
    List.find?_eq_none.mpr fun clause hclause =>
      mt Clause.isMatch_ofFields_iff.mp (h clause hclause)
  rw [chosen?, hfind, Option.map_none]

/-! ## Rewriting the conditions -/

/-- The second list of conditions arises from the first by changes that leave the first match and
its value alone. -/
inductive Rewritten (limits : Limits) (scope : Variables) : Value → Value → Prop where
  /-- Nothing is changed. -/
  | refl (conditions : Value) : Rewritten limits scope conditions conditions
  /-- A change is taken back. -/
  | symm {conditions later : Value} (h : Rewritten limits scope conditions later) :
      Rewritten limits scope later conditions
  /-- One change comes after another. -/
  | trans {conditions middle later : Value} (first : Rewritten limits scope conditions middle)
      (second : Rewritten limits scope middle later) : Rewritten limits scope conditions later
  /-- A clause that does not match is deleted. -/
  | delete (front back : List Value) {clause : Fields Value}
      (h : ¬Clause.Matches limits scope clause) :
      Rewritten limits scope (.sequence (front ++ .mapping clause :: back))
        (.sequence (front ++ back))
  /-- What follows a clause that matches is replaced. -/
  | replace (front back later : List Value) {clause : Fields Value}
      (h : Clause.Matches limits scope clause) :
      Rewritten limits scope (.sequence (front ++ .mapping clause :: back))
        (.sequence (front ++ .mapping clause :: later))
  /-- The entries of a clause, its value among them, are put in another order. -/
  | reorder (front back : List Value) {clause later : Fields Value} (hdistinct : clause.Distinct)
      (h : clause.Perm later) :
      Rewritten limits scope (.sequence (front ++ .mapping clause :: back))
        (.sequence (front ++ .mapping later :: back))
  /-- An item that is no mapping is inserted. -/
  | insert (front back : List Value) {item : Value} (h : item.mapping? = none) :
      Rewritten limits scope (.sequence (front ++ back)) (.sequence (front ++ item :: back))
  /-- A clause stands without the list that holds it alone. -/
  | unwrap (clause : Fields Value) :
      Rewritten limits scope (.sequence [.mapping clause]) (.mapping clause)

/-- Such changes leave the chosen value alone. -/
theorem Rewritten.chosen?_eq {conditions later : Value}
    (h : Rewritten limits scope conditions later) :
    chosen? limits scope conditions.items = chosen? limits scope later.items := by
  induction h with
  | refl => rfl
  | symm _ ih => exact ih.symm
  | trans _ _ ih₁ ih₂ => exact ih₁.trans ih₂
  | delete front back h =>
    rw [Value.items, Value.items, chosen?_append, chosen?_append, chosen?_cons_of_not_matches h]
  | replace front back later h =>
    rw [Value.items, Value.items, chosen?_append, chosen?_append, chosen?_cons_of_matches h,
      chosen?_cons_of_matches h]
  | reorder front back hdistinct h =>
    rw [Value.items, Value.items, chosen?_append, chosen?_append,
      chosen?_cons_congr (Clause.matches_perm_iff h) (hdistinct.get?_perm h "value")]
  | insert front back h =>
    rw [Value.items, Value.items, chosen?_append, chosen?_append, chosen?_cons_of_no_clause h]
  | unwrap => rfl

/-- The first match decides, and nothing else counts. A conditional written as a mapping has the
resolved value of its first matching clause, and the resolved default when no clause matches; it
keeps its value when its conditions are rewritten. -/
theorem evaluate_firstMatch (limits : Limits) (scope : Variables) (raw : Fields Value) :
    let evaluated (raw : Fields Value) :=
      (ofValue? (.mapping raw)).map fun conditional => conditional.evaluate limits scope
    let resolved (value : Option Value) := some (limits.resolve scope (value.getD .null))
    let conditions := Value.under (.mapping raw) "conditions"
    let clauses := conditions.items.filterMap Value.mapping?
    (∀ before clause after, clauses = before ++ clause :: after →
      (∀ earlier ∈ before, ¬Clause.Matches limits scope earlier) →
      Clause.Matches limits scope clause →
        evaluated raw = resolved (clause.get? "value")) ∧
    ((∀ clause ∈ clauses, ¬Clause.Matches limits scope clause) →
      evaluated raw = resolved (raw.get? "default")) ∧
    ∀ rewritten, Rewritten limits scope conditions rewritten →
      evaluated (raw.insert "conditions" rewritten) = evaluated raw := by
  intro evaluated resolved conditions clauses
  have hevaluated (raw : Fields Value) : evaluated raw = some (limits.resolve scope
      ((chosen? limits scope (Value.under (.mapping raw) "conditions").items).getD
        (Value.under (.mapping raw) "default"))) := by
    obtain ⟨conditional, hread, hvalue⟩ := ofValue?_mapping raw
    rw [← hvalue limits scope]
    exact congrArg (Option.map fun conditional => conditional.evaluate limits scope) hread
  refine ⟨fun before clause after hsplit hbefore hmatches => ?_, fun hnone => ?_,
    fun rewritten hrewritten => ?_⟩
  · rw [hevaluated, chosen?_of_first hsplit hbefore hmatches, Option.getD_some]
  · rw [hevaluated, chosen?_of_none hnone, Option.getD_none]
    rfl
  · have hconditions :
        Value.under (.mapping (raw.insert "conditions" rewritten)) "conditions" = rewritten := by
      simp [Value.under, Value.entries, Value.mapping?, Fields.get?_insert]
    have hdefault : Value.under (.mapping (raw.insert "conditions" rewritten)) "default" =
        Value.under (.mapping raw) "default" := by
      simp [Value.under, Value.entries, Value.mapping?, Fields.get?_insert]
    rw [hevaluated, hevaluated, hconditions, hdefault, hrewritten.chosen?_eq]

/-- Of three clauses with a note between them the second is the first to match, and it may as well
stand alone, with its value in front. -/
theorem evaluate_firstMatch_style :
    let scope : Variables := [("style", .string "light"), ("size", .string "big")]
    let dark : Fields Value := [("style", .string "dark"), ("value", .string "black")]
    let light : Fields Value := [("style", .string "light"), ("value", .string "white")]
    let large : Fields Value := [("size", .string "big"), ("value", .string "blue")]
    let written : Fields Value := [("default", .string "gray"), ("conditions",
      .sequence [.mapping dark, .string "note", .mapping light, .mapping large])]
    let alone : Fields Value := [("default", .string "gray"), ("conditions",
      .mapping [("value", .string "white"), ("style", .string "light")])]
    (ofValue? (.mapping alone)).map (fun conditional => conditional.evaluate .standard scope) =
        (ofValue? (.mapping written)).map (fun conditional =>
          conditional.evaluate .standard scope) ∧
      (ofValue? (.mapping written)).map (fun conditional =>
        conditional.evaluate .standard scope) = some (.string "white") := by
  intro scope dark light large written alone
  have hdark : ¬Clause.Matches .standard scope dark :=
    mt Clause.isMatch_ofFields_iff.mpr (by decide +kernel)
  have hlight : Clause.Matches .standard scope light :=
    Clause.isMatch_ofFields_iff.mp (by decide +kernel)
  obtain ⟨hfirst, _, hrewriting⟩ := evaluate_firstMatch .standard scope written
  constructor
  · have hdeleted := Rewritten.delete [] [.string "note", .mapping light, .mapping large] hdark
    have hinserted : Rewritten .standard scope (.sequence [.mapping light, .mapping large])
        (.sequence [.string "note", .mapping light, .mapping large]) := .insert [] _ rfl
    have hshortened := Rewritten.replace [] [.mapping large] [] hlight
    have hreordered : Rewritten .standard scope (.sequence [.mapping light])
        (.sequence [.mapping [("value", .string "white"), ("style", .string "light")]]) :=
      .reorder [] [] (by decide) (List.Perm.swap _ _ [])
    exact hrewriting _ (hdeleted.trans (hinserted.symm.trans (hshortened.trans
      (hreordered.trans (.unwrap _)))))
  · have hwhite : Limits.standard.resolve scope (.string "white") = .string "white" :=
      Limits.resolveText_of_not_occurs _ scope (by decide +kernel)
    have hchosen := hfirst [dark] light [large] rfl (by simpa using hdark) hlight
    exact hchosen.trans (congrArg some hwhite)

end Conditional

end PosterOverlay
