import PosterOverlay.Proofs.Json.Quoted
import PosterOverlay.Proofs.Placeholder.Nesting
import PosterOverlay.Proofs.Template.Suffix
import PosterOverlay.Proofs.Value.Rigid

/-!
# Matching of values that are the same

Checks compare values by their texts, and a text shows more than sameness does: the order in which
the entries of a mapping stand, and the sign of a zero. So values that are the same need not match
alike; they do exactly when they are equal. The values for which this makes no difference are the
rigid ones, which no other value is the same as.
-/

namespace PosterOverlay

namespace Json

open Value (same sameItems within ItemsDistinct FieldsDistinct)

/-- Texts that begin with two sequences agree from the first items on, if both or neither of these
are empty. -/
theorem compactItems_of_compact {items others : List Value} (hnil : items = [] ↔ others = [])
    {rest rest' : List Char}
    (h : compact (.sequence items) ++ rest = compact (.sequence others) ++ rest') :
    compactItems items ++ rest = compactItems others ++ rest' := by
  cases items with
  | nil =>
    rw [hnil.mp rfl] at h ⊢
    simpa [compact, compactItems] using h
  | cons item items =>
    cases others with
    | nil => cases hnil.mpr rfl
    | cons other others => simpa [compact, compactItems] using h

/-- Texts that begin with two mappings agree from the first fields on, if both or neither of these
are empty. -/
theorem compactFields_of_compact {fields others : Fields Value} (hnil : fields = [] ↔ others = [])
    {rest rest' : List Char}
    (h : compact (.mapping fields) ++ rest = compact (.mapping others) ++ rest') :
    compactFields fields ++ rest = compactFields others ++ rest' := by
  cases fields with
  | nil =>
    rw [hnil.mp rfl] at h ⊢
    simpa [compact, compactFields] using h
  | cons field fields =>
    cases others with
    | nil => cases hnil.mpr rfl
    | cons other others => simpa [compact, compactFields] using h

mutual

/-- Of values that are the same, a text that begins with one of them determines which it is, and
what follows it. The induction follows the first value; what follows is generalized, since each
value inside is followed by others. -/
theorem eq_of_same_of_compact {a b : Value} (ha : a.Distinct) (h : a.same b = true)
    {rest rest' : List Char} (htext : compact a ++ rest = compact b ++ rest') :
    a = b ∧ rest = rest' := by
  cases a with
  | float x =>
    obtain ⟨y, rfl, hsame⟩ := Value.exists_of_same_float h
    simp only [compact, scalar] at htext
    obtain ⟨rfl, hrest⟩ := FloatNotation.json.eq_of_same_of_write hsame htext
    exact ⟨rfl, hrest⟩
  | sequence items =>
    obtain ⟨others, rfl, hsame⟩ := Value.exists_of_same_sequence h
    have hnil : items = [] ↔ others = [] := by
      cases items <;> cases others <;> simp_all [sameItems]
    have hitems := compactItems_of_compact hnil htext
    obtain ⟨rfl, hrest⟩ := eq_of_sameItems_of_compactItems ha hsame hitems
    exact ⟨rfl, hrest⟩
  | mapping fields =>
    obtain ⟨others, rfl, hlength, hwithin⟩ := Value.exists_of_same_mapping h
    have hnil : fields = [] ↔ others = [] := by
      rw [← List.length_eq_zero_iff, ← List.length_eq_zero_iff, hlength]
    have hfields := compactFields_of_compact hnil htext
    obtain ⟨rfl, hrest⟩ := eq_of_within_of_compactFields ha.1 ha.2 hlength hwithin hfields
    exact ⟨rfl, hrest⟩
  | _ => cases b <;> simp_all [same]

theorem eq_of_sameItems_of_compactItems {items others : List Value} (ha : ItemsDistinct items)
    (h : sameItems items others = true) {rest rest' : List Char}
    (htext : compactItems items ++ rest = compactItems others ++ rest') :
    items = others ∧ rest = rest' := by
  cases items with
  | nil =>
    cases others with
    | nil => exact ⟨rfl, List.append_cancel_left htext⟩
    | cons _ _ => simp [sameItems] at h
  | cons item items =>
    cases others with
    | nil => simp [sameItems] at h
    | cons other others =>
      rw [sameItems, Bool.and_eq_true] at h
      simp only [compactItems, List.cons_append, List.append_assoc, List.cons.injEq,
        true_and] at htext
      obtain ⟨rfl, htail⟩ := eq_of_same_of_compact ha.1 h.1 htext
      obtain ⟨rfl, hrest⟩ := eq_of_sameItems_of_compactItems ha.2 h.2 htail
      exact ⟨rfl, hrest⟩

theorem eq_of_within_of_compactFields {fields others : List (String × Value)}
    (hnames : Fields.Distinct fields) (hvalues : FieldsDistinct fields)
    (hlength : fields.length = others.length) (h : within fields others = true)
    {rest rest' : List Char}
    (htext : compactFields fields ++ rest = compactFields others ++ rest') :
    fields = others ∧ rest = rest' := by
  cases fields with
  | nil =>
    cases others with
    | nil => exact ⟨rfl, List.append_cancel_left htext⟩
    | cons _ _ => cases hlength
  | cons field fields =>
    cases others with
    | nil => cases hlength
    | cons field' others =>
      obtain ⟨name, value⟩ := field
      obtain ⟨name', other⟩ := field'
      simp only [compactFields, List.cons_append, List.append_assoc, List.cons.injEq,
        true_and] at htext
      obtain ⟨rfl, hvalue⟩ := quoted_append_inj htext
      -- The names agree, so it is these two values that sameness compares.
      obtain ⟨hsame, hwithin⟩ := (Value.within_cons_cons hnames).mp h
      rw [List.cons.injEq] at hvalue
      obtain ⟨rfl, htail⟩ := eq_of_same_of_compact hvalues.1 hsame hvalue.2
      obtain ⟨rfl, hrest⟩ := eq_of_within_of_compactFields hnames.cons.2 hvalues.2
        (Nat.succ.inj hlength) hwithin htail
      exact ⟨rfl, hrest⟩

end

end Json

namespace Value

/-- Of values that are the same, the text determines which one it is. -/
theorem eq_of_same_of_text {a b : Value} (ha : a.Distinct) (h : a.same b = true)
    (htext : a.text = b.text) : a = b := by
  have hcompact (hwrite : Json.write a = Json.write b) : a = b := by
    have hchars : Json.compact a ++ [] = Json.compact b ++ [] :=
      congrArg (· ++ []) (String.ofList_injective hwrite)
    exact (Json.eq_of_same_of_compact ha h hchars).1
  cases a with
  | float x =>
    obtain ⟨y, rfl, hsame⟩ := exists_of_same_float h
    have hchars : FloatNotation.plain.write x ++ [] = FloatNotation.plain.write y ++ [] :=
      congrArg (· ++ []) (String.ofList_injective htext)
    rw [(FloatNotation.plain.eq_of_same_of_write hsame hchars).1]
  | sequence items =>
    obtain ⟨others, rfl, _⟩ := exists_of_same_sequence h
    exact hcompact htext
  | mapping fields =>
    obtain ⟨others, rfl, _⟩ := exists_of_same_mapping h
    exact hcompact htext
  | _ => cases b <;> simp_all [same]

/-- Values that are the same are loosely the same exactly when they are equal. -/
theorem looselySame_iff_of_same {a b : Value} (ha : a.Distinct) (h : a.same b = true) :
    a.looselySame b = true ↔ a = b := by
  rw [looselySame, beq_iff_eq]
  constructor
  · exact eq_of_same_of_text ha h
  · rintro rfl
    rfl

/-- Of values that are the same, membership in the list of one value determines which it is. -/
theorem isOneOf_singleton_iff_of_same {a b : Value} (ha : a.Distinct) (h : a.same b = true) :
    a.isOneOf (sequence [a]) = b.isOneOf (sequence [a]) ↔ a = b := by
  rw [← looselySame_iff_of_same ha h]
  simp only [isOneOf, List.any_cons, List.any_nil, Bool.or_false, looselySame, beq_self_eq_true,
    beq_iff_eq]
  constructor
  · intro hmember
    exact (beq_iff_eq.mp hmember.symm).symm
  · intro htext
    exact (beq_iff_eq.mpr htext.symm).symm

/-- Values that are the same are expected by the same lists and values exactly when they are
equal. -/
theorem isOneOf_iff_of_same {a b : Value} (ha : a.Distinct) (h : a.same b = true) :
    (∀ expected, a.isOneOf expected = b.isOneOf expected) ↔ a = b := by
  constructor
  · intro hexpected
    exact (isOneOf_singleton_iff_of_same ha h).mp (hexpected _)
  · rintro rfl
    exact fun _ => rfl

/-- A value is loosely the same as all its variants exactly when it is rigid. -/
theorem isRigid_iff_looselySame {a : Value} (ha : a.Distinct) :
    a.IsRigid ↔ ∀ b, a.Variant b → a.looselySame b = true := by
  rw [isRigid_iff ha]
  exact forall₂_congr fun b hb => (looselySame_iff_of_same ha hb.2).symm

/-- Loose comparison answers alike for all variants of two values exactly when both are rigid, or
when it never says yes. If it says yes once and always answers alike, then all variants of one value
have the text of the other, and so have one text. -/
theorem looselySame_stable_iff {a e : Value} (ha : a.Distinct) (he : e.Distinct) :
    (∀ b e', a.Variant b → e.Variant e' → a.looselySame e = b.looselySame e') ↔
      a.IsRigid ∧ e.IsRigid ∨
        ∀ b e', a.Variant b → e.Variant e' → b.looselySame e' = false := by
  constructor
  · intro hstable
    cases hloose : a.looselySame e with
    | false =>
      refine .inr fun b e' hb he' => ?_
      rw [← hstable b e' hb he', hloose]
    | true =>
      have htext : a.text = e.text := beq_iff_eq.mp hloose
      refine .inl ⟨(isRigid_iff_looselySame ha).mpr fun b hb => ?_,
        (isRigid_iff_looselySame he).mpr fun e' he' => ?_⟩
      · have hbe := (hstable b e hb he.variant_self).symm.trans hloose
        exact beq_iff_eq.mpr (htext.trans (beq_iff_eq.mp hbe).symm)
      · have hae' := (hstable a e' ha.variant_self he').symm.trans hloose
        exact beq_iff_eq.mpr (htext.symm.trans (beq_iff_eq.mp hae'))
  · rintro (⟨hrigid, hrigid'⟩ | hnever) b e' hb he'
    · rw [hrigid.eq_of_same hb.2, hrigid'.eq_of_same he'.2]
    · rw [hnever a e ha.variant_self he.variant_self, hnever b e' hb he']

end Value

/-! ### The checks of a variable -/

/-- Plain texts one after another make a plain text. -/
theorem Placeholder.IsPlain.append {front back : String} (h : IsPlain front) (h' : IsPlain back) :
    IsPlain (front ++ back) := by
  rw [IsPlain, String.toList_append, List.forall_mem_append]
  exact ⟨h, h'⟩

namespace Check

variable (limits : Limits) (scope : Variables) {name : String}

/-- A check with the ending `.exists` asks whether the variable has a value. -/
theorem passes_exists (hname : Placeholder.IsPlain name) (expected : Value) :
    Check.passes ⟨name ++ ".exists", expected⟩ limits scope =
      (scope.hasValue name == expected.isTrue) := by
  have hplain : Placeholder.IsPlain (name ++ ".exists") := hname.append (by decide +kernel)
  rw [passes_of_exists (limits.resolveName_of_not_occurs scope hplain.not_occurs),
    limits.resolveName_of_not_occurs scope hname.not_occurs]

/-- A check with the ending `.not` turns the match of the variable around. -/
theorem passes_not (hname : Placeholder.IsPlain name) (expected : Value) :
    Check.passes ⟨name ++ ".not", expected⟩ limits scope =
      !isMet expected (Fields.get? scope name) := by
  have hplain : Placeholder.IsPlain (name ++ ".not") := hname.append (by decide +kernel)
  rw [passes_of_not (limits.resolveName_of_not_occurs scope hplain.not_occurs)]

end Check

/-- Presence does not tell values that are the same apart. -/
theorem Variables.hasValue_insert_of_same {a b : Value} (h : a.same b = true) (scope : Variables)
    (name : String) : Variables.hasValue (Fields.insert name a scope) name =
      Variables.hasValue (Fields.insert name b scope) name := by
  have hkind : a.isNull = b.isNull ∧ a.isUnresolved = b.isUnresolved := by
    cases a <;> cases b <;> simp_all [Value.same, Value.isNull, Value.isUnresolved]
  simp [Variables.hasValue, Fields.get?_insert, hkind]

/-- A variable that is bound to one of two same values passes the same checks with either exactly
when they are equal: the denied check for membership in the list of one value tells them apart. -/
theorem Check.passes_insert_iff_of_same {a b : Value} (ha : a.Distinct) (h : a.same b = true)
    (limits : Limits) (scope : Variables) {name : String} (hname : Placeholder.IsPlain name) :
    (∀ check : Check, check.passes limits (Fields.insert name a scope) =
      check.passes limits (Fields.insert name b scope)) ↔ a = b := by
  constructor
  · intro hchecks
    have hnot := hchecks ⟨name ++ ".not", .sequence [a]⟩
    rw [passes_not limits _ hname, passes_not limits _ hname, Fields.get?_insert,
      Fields.get?_insert, if_pos rfl, if_pos rfl, Bool.not_inj_iff] at hnot
    exact (Value.isOneOf_singleton_iff_of_same ha h).mp hnot
  · rintro rfl
    exact fun _ => rfl

namespace Value

/-- What sameness means for matching. Two values that are the same are loosely the same, are
expected by the same values and pass the same checks as a variable exactly when they are equal;
only presence never tells them apart. A value is loosely the same as all its variants exactly when
it is rigid. Loose comparison answers alike for all variants of two values exactly when both are
rigid or it never says yes, and for rigid values membership answers alike too. -/
theorem matching_of_same {a : Value} (ha : a.Distinct) :
    (∀ b : Value, a.same b = true →
      (a.looselySame b = true ↔ a = b) ∧
      ((∀ expected, a.isOneOf expected = b.isOneOf expected) ↔ a = b) ∧
      ∀ (limits : Limits) (scope : Variables) (name : String), Placeholder.IsPlain name →
        ((∀ check : Check, check.passes limits (Fields.insert name a scope) =
          check.passes limits (Fields.insert name b scope)) ↔ a = b) ∧
        ∀ expected,
          Check.passes ⟨name ++ ".exists", expected⟩ limits (Fields.insert name a scope) =
            Check.passes ⟨name ++ ".exists", expected⟩ limits (Fields.insert name b scope)) ∧
    (a.IsRigid ↔ ∀ b, a.Variant b → a.looselySame b = true) ∧
    ∀ e : Value, e.Distinct →
      ((∀ b e', a.Variant b → e.Variant e' → a.looselySame e = b.looselySame e') ↔
        a.IsRigid ∧ e.IsRigid ∨
          ∀ b e', a.Variant b → e.Variant e' → b.looselySame e' = false) ∧
      (a.IsRigid → e.IsRigid → ∀ b e', a.Variant b → e.Variant e' →
        a.isOneOf e = b.isOneOf e') := by
  refine ⟨fun b h => ⟨looselySame_iff_of_same ha h, isOneOf_iff_of_same ha h, ?_⟩,
    isRigid_iff_looselySame ha, fun e he => ⟨looselySame_stable_iff ha he, ?_⟩⟩
  · intro limits scope name hname
    refine ⟨Check.passes_insert_iff_of_same ha h limits scope hname, fun expected => ?_⟩
    rw [Check.passes_exists limits _ hname, Check.passes_exists limits _ hname,
      Variables.hasValue_insert_of_same h]
  · intro hrigid hrigid' b e' hb he'
    rw [hrigid.eq_of_same hb.2, hrigid'.eq_of_same he'.2]

/-- A list of texts and of mappings with one entry is loosely the same as all its variants. -/
theorem matching_of_same_list :
    (sequence [string "hd", mapping [("width", int 2)]]).Distinct ∧
      ∀ b, (sequence [string "hd", mapping [("width", int 2)]]).Variant b →
        (sequence [string "hd", mapping [("width", int 2)]]).looselySame b = true := by
  have hdistinct : (sequence [string "hd", mapping [("width", int 2)]]).Distinct := by
    simp [Distinct, ItemsDistinct, FieldsDistinct, Fields.Distinct, Fields.names]
  have hrigid : (sequence [string "hd", mapping [("width", int 2)]]).IsRigid := by
    simp [IsRigid, ItemsRigid, FieldsRigid]
  exact ⟨hdistinct, (matching_of_same hdistinct).2.1.mp hrigid⟩

/-- Two entries in another order, and a zero with a sign, come to the same value but match
differently. -/
theorem matching_shows_order :
    (mapping [("x", int 1), ("y", int 2)]).same (mapping [("y", int 2), ("x", int 1)]) = true ∧
      (mapping [("x", int 1), ("y", int 2)]).looselySame
        (mapping [("y", int 2), ("x", int 1)]) = false ∧
      (mapping [("x", int 1), ("y", int 2)]).isOneOf
        (mapping [("x", int 1), ("y", int 2)]) = true ∧
      (mapping [("y", int 2), ("x", int 1)]).isOneOf
        (mapping [("x", int 1), ("y", int 2)]) = false ∧
      Check.passes ⟨"size", mapping [("x", int 1), ("y", int 2)]⟩ .standard
        [("size", mapping [("x", int 1), ("y", int 2)])] = true ∧
      Check.passes ⟨"size", mapping [("x", int 1), ("y", int 2)]⟩ .standard
        [("size", mapping [("y", int 2), ("x", int 1)])] = false ∧
      (float 0).same (float (-0)) = true ∧ (float 0).looselySame (float (-0)) = false := by
  decide +kernel

end Value

end PosterOverlay
