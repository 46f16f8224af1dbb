import PosterOverlay.Proofs.Placeholder.Visibility

/-!
# Chains of variables

A variable may be nothing but the placeholder of another one, and so on, until one has a value of
its own. Each scan follows one link of such a chain. So as many scans as there are variables lead
to the value, which keeps its kind, and with fewer the scans end at the placeholder of the variable
whose turn would be next.
-/

namespace PosterOverlay

namespace Placeholder

/-- The opening mark is found in every text that opens and closes. -/
theorem occursIn_open_of_opensAndCloses {text : List Char} (h : opensAndCloses text = true) :
    Text.occursIn ['<', '<'] text = true := by
  fun_induction opensAndCloses text with
  | case1 rest => simp [Text.occursIn]
  | case2 c rest _ ih => exact Text.occursIn_append (ih h) [c]
  | case3 => exact absurd h Bool.false_ne_true

/-- Nothing looks like a placeholder in a text without the opening mark. -/
theorem not_occurs_of_not_contains_open {text : String} (h : Text.contains text "<<" = false) :
    occurs text = false := by
  rw [← Bool.not_eq_true]
  intro hoccurs
  have hopen : Text.contains text "<<" = true := occursIn_open_of_opensAndCloses hoccurs
  rw [h] at hopen
  cases hopen

/-- A text that holds a placeholder holds the opening mark. -/
theorem contains_open_of_contains_written {text name : String}
    (h : Text.contains text (written name) = true) : Text.contains text "<<" = true := by
  have hopen : ['<', '<'] <+: (written name).toList := by simp [toList_written]
  rw [Text.contains, Text.occursIn_iff_infix] at h ⊢
  exact hopen.isInfix.trans h

/-- Placeholders that are written alike have the same name. -/
theorem eq_of_written_eq {name other : String} (h : written name = written other) :
    name = other := by
  have hchars := congrArg String.toList h
  simpa [toList_written, String.toList_inj] using hchars

/-- A placeholder holds no other placeholder. -/
theorem eq_of_contains_written {name other : String} (hname : IsName name)
    (hother : IsName other) (h : Text.contains (written other) (written name) = true) :
    name = other := by
  have hnil : ¬ (written name).toList <:+: [] := by simp [toList_written]
  rw [Text.contains, Text.occursIn_iff_infix, ← List.append_nil (written other).toList,
    infix_written_append_iff hname hother] at h
  exact h.resolve_right hnil

/-- A value in which there is no opening mark is finished. -/
theorem rescan_of_not_contains_open (scope : Variables) (length : Nat) {value : Value}
    (h : ∀ s, value = .string s → Text.contains s "<<" = false) :
    rescan scope length value = value := by
  cases value with
  | string s => exact scan_of_not_occurs scope length (not_occurs_of_not_contains_open (h s rfl))
  | _ => rfl

end Placeholder

namespace Variables

open Placeholder

/-- Each of the names is bound to the placeholder of the next one, and the last one to the
value. -/
inductive LeadsTo (scope : Variables) : List String → Value → Prop where
  /-- The end of the chain. -/
  | last {name : String} {value : Value} (h : Fields.get? scope name = some value) :
      LeadsTo scope [name] value
  /-- A link of the chain. -/
  | link {name next : String} {later : List String} {value : Value}
      (h : Fields.get? scope name = some (.string (written next)))
      (hlater : LeadsTo scope (next :: later) value) : LeadsTo scope (name :: next :: later) value

variable {scope : Variables} {name : String} {later : List String} {value : Value}

/-- No variable of a chain is bound to its own placeholder, for the chain would then lead from it
to itself all along, and its end would be that placeholder. -/
theorem LeadsTo.get?_ne_self (h : scope.LeadsTo (name :: later) value)
    (htext : ∀ s, value = .string s → Text.contains s "<<" = false) :
    Fields.get? scope name ≠ some (.string (written name)) := by
  intro hself
  induction later generalizing name with
  | nil =>
    cases h with
    | last h =>
      have hvalue : value = .string (written name) := Option.some.inj (h.symm.trans hself)
      have hopen := htext _ hvalue
      rw [contains_open_of_contains_written (Text.contains_self _)] at hopen
      cases hopen
  | cons next later ih =>
    cases h with
    | link h hlater =>
      have hwritten := Value.string.inj (Option.some.inj (h.symm.trans hself))
      obtain rfl := eq_of_written_eq hwritten
      exact ih hlater hself

/-- A link of a chain can be seen: it is the placeholder of another variable. -/
theorem visible?_of_link {next : String} (hname : IsName name) (hnext : IsName next)
    (h : Fields.get? scope name = some (.string (written next)))
    (hself : Fields.get? scope name ≠ some (.string (written name))) :
    scope.visible? name = some (.string (written next)) := by
  refine visible?_eq_some_iff.mpr ⟨h, rfl, ?_⟩
  rw [Value.mentions, ← Bool.not_eq_true]
  intro hmentions
  obtain rfl := eq_of_contains_written hname hnext hmentions
  exact hself h

/-- The end of a chain can be seen. -/
theorem visible?_of_end (h : Fields.get? scope name = some value) (hnull : value ≠ .null)
    (htext : ∀ s, value = .string s → Text.contains s "<<" = false) :
    scope.visible? name = some value := by
  refine visible?_eq_some_iff.mpr ⟨h, ?_, ?_⟩
  · cases value with
    | null => exact absurd rfl hnull
    | _ => rfl
  · cases value with
    | string s =>
      rw [Value.mentions, ← Bool.not_eq_true]
      intro hmentions
      have hopen := htext s rfl
      rw [contains_open_of_contains_written hmentions] at hopen
      cases hopen
    | _ => rfl

/-- Scanning the first placeholder of a chain follows one link with each scan. The induction is on
the scans, which go along the chain. -/
theorem LeadsTo.iterate_rescan (hleads : scope.LeadsTo (name :: later) value)
    (hnames : ∀ bound ∈ name :: later, IsName bound) (hnull : value ≠ .null)
    (htext : ∀ s, value = .string s → Text.contains s "<<" = false) (length depth : Nat) :
    (rescan scope length)^[depth] (.string (written name)) =
      if h : depth < (name :: later).length then .string (written (name :: later)[depth])
      else value := by
  induction depth generalizing name later with
  | zero => rfl
  | succ depth ih =>
    have hname := hnames name List.mem_cons_self
    rw [Function.iterate_succ_apply, rescan, scan_written hname]
    cases hleads with
    | last h =>
      rw [visible?_of_end h hnull htext, Option.getD_some,
        Function.iterate_fixed (rescan_of_not_contains_open scope length htext), dif_neg (by simp)]
    | link h hlater =>
      have hnames' := (List.forall_mem_cons.mp hnames).2
      have hself := (LeadsTo.link h hlater).get?_ne_self htext
      rw [visible?_of_link hname (hnames' _ List.mem_cons_self) h hself, Option.getD_some,
        ih hlater hnames']
      simp only [List.length_cons, Nat.add_lt_add_iff_right, List.getElem_cons_succ]

end Variables

namespace Limits

open Placeholder (IsName written)

/-- The depth is met exactly. A chain of variables that ends in a value without an opening mark is
followed from its first placeholder to this value, which keeps its kind, when the depth is at least
the number of variables; otherwise the scans end at the placeholder of the variable that the depth
leaves out first. The length bound plays no part. -/
theorem resolveText_chain {scope : Variables} {first : String} {later : List String}
    {value : Value} (hnames : ∀ name ∈ first :: later, IsName name)
    (hleads : scope.LeadsTo (first :: later) value) (hnull : value ≠ .null)
    (htext : ∀ s, value = .string s → Text.contains s "<<" = false) (limits : Limits) :
    limits.resolveText scope (written first) =
      if h : limits.depth < (first :: later).length
      then .string (written (first :: later)[limits.depth]) else value := by
  rw [resolveText, Placeholder.scanUpTo_eq_iterate]
  exact hleads.iterate_rescan hnames hnull htext limits.length limits.depth

/-- Three variables lead to a number. Two scans stop at the placeholder of the third variable, and
three yield the number, even where there is no room for any text. -/
theorem resolveText_chain_weight :
    let scope : Variables := [("size", .int 40), ("width", .string "<<size>>"),
      ("weight", .string "<<width>>")]
    let names := ["weight", "width", "size"]
    (∀ name ∈ names, IsName name) ∧ scope.LeadsTo names (.int 40) ∧
      (⟨2, 0, 0, 0⟩ : Limits).resolveText scope "<<weight>>" = .string "<<size>>" ∧
      (⟨3, 0, 0, 0⟩ : Limits).resolveText scope "<<weight>>" = .int 40 := by
  intro scope names
  have hnames : ∀ name ∈ names, IsName name := by decide
  have hleads : scope.LeadsTo names (.int 40) := .link rfl (.link rfl (.last rfl))
  exact ⟨hnames, hleads, resolveText_chain hnames hleads nofun nofun ⟨2, 0, 0, 0⟩,
    resolveText_chain hnames hleads nofun nofun ⟨3, 0, 0, 0⟩⟩

end Limits

end PosterOverlay
