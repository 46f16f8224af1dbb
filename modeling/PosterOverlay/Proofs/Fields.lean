import PosterOverlay.Fields

/-!
# Lookups and entries of fields

What the operations on fields do to a lookup, and which entries they leave behind. Where names are
distinct, a lookup finds an entry wherever it stands, so that the order of the entries does not
matter to it.
-/

namespace PosterOverlay.Fields

variable {α : Type}

/-- Whether a name is bound twice can be computed. -/
instance (fields : Fields α) : Decidable fields.Distinct :=
  inferInstanceAs (Decidable fields.names.Nodup)

/-- Whatever a lookup finds is an entry. -/
theorem mem_of_get? {fields : Fields α} {name : String} {value : α}
    (h : fields.get? name = some value) : (name, value) ∈ fields := by
  induction fields with
  | nil => simp at h
  | cons entry rest ih =>
    obtain ⟨bound, old⟩ := entry
    rw [get?_cons] at h
    by_cases heq : bound = name
    · rw [if_pos heq] at h
      cases h
      simp [heq]
    · rw [if_neg heq] at h
      exact List.mem_cons_of_mem _ (ih h)

/-- A lookup finds nothing exactly when the name is not bound. -/
theorem get?_eq_none_iff {fields : Fields α} {name : String} :
    fields.get? name = none ↔ name ∉ fields.names := by
  rw [← contains_iff_mem_names, contains]
  cases fields.get? name <;> simp

/-- A name that is not bound is not among the names. -/
theorem contains_eq_false_iff {fields : Fields α} {name : String} :
    fields.contains name = false ↔ name ∉ fields.names := by
  rw [← contains_iff_mem_names, Bool.not_eq_true]

/-- Where nothing is bound, nothing is bound twice. -/
theorem distinct_nil : Distinct ([] : Fields α) :=
  List.nodup_nil

/-- Of the front entry, distinct names keep every later one apart. -/
theorem Distinct.cons {bound : String} {value : α} {rest : Fields α}
    (h : Distinct ((bound, value) :: rest)) : bound ∉ names rest ∧ Distinct rest :=
  List.nodup_cons.mp h

/-- Where names are distinct, a lookup finds exactly the entry of that name. -/
theorem Distinct.get?_eq_some_iff {fields : Fields α} (h : fields.Distinct) {name : String}
    {value : α} : fields.get? name = some value ↔ (name, value) ∈ fields := by
  refine ⟨mem_of_get?, fun hmem => ?_⟩
  induction fields with
  | nil => simp at hmem
  | cons entry rest ih =>
    obtain ⟨bound, old⟩ := entry
    obtain ⟨hnew, hrest⟩ := h.cons
    rcases List.mem_cons.mp hmem with heq | hmem
    · cases heq
      simp
    · have hne : bound ≠ name := by
        rintro rfl
        exact hnew (List.mem_map_of_mem hmem)
      rw [get?_cons, if_neg hne]
      exact ih hrest hmem

/-- The order of the entries does not matter to a lookup. -/
theorem Distinct.get?_perm {fields later : Fields α} (h : fields.Distinct)
    (hperm : fields.Perm later) (name : String) : fields.get? name = later.get? name := by
  have hlater : later.Distinct := (hperm.map Prod.fst).nodup_iff.mp h
  ext value
  rw [h.get?_eq_some_iff, hlater.get?_eq_some_iff, hperm.mem_iff]

/-- Fewer entries are still distinct. -/
theorem Distinct.filter {fields : Fields α} (h : fields.Distinct) (keep : String × α → Bool) :
    Distinct (List.filter keep fields) :=
  h.sublist (List.filter_sublist.map Prod.fst)

/-- Where names are distinct, a lookup in the entries kept finds what it found if that is kept. -/
theorem Distinct.get?_filter {fields : Fields α} (h : fields.Distinct)
    (keep : String × α → Bool) (name : String) :
    get? (List.filter keep fields) name =
      (fields.get? name).filter fun value => keep (name, value) := by
  ext value
  rw [(h.filter keep).get?_eq_some_iff, List.mem_filter, Option.filter_eq_some_iff,
    h.get?_eq_some_iff]

/-- Extended fields answer with the last binding of the later fields, and otherwise with their
own. -/
theorem get?_extend (fields later : Fields α) (name : String) :
    (fields.extend later).get? name = (get? later.reverse name).or (fields.get? name) := by
  unfold extend
  induction later generalizing fields with
  | nil => simp
  | cons entry later ih =>
    obtain ⟨bound, value⟩ := entry
    rw [List.foldl_cons, ih, List.reverse_cons, get?_append, Option.or_assoc]
    congr 1
    rw [get?_insert]
    by_cases h : bound = name <;> simp [h]

/-- Fields extended by distinct ones answer with the later ones first. -/
theorem get?_extend_of_distinct (fields : Fields α) {later : Fields α} (h : later.Distinct)
    (name : String) :
    (fields.extend later).get? name = (later.get? name).or (fields.get? name) := by
  rw [get?_extend, ← h.get?_perm (List.reverse_perm later).symm]

/-- Fields extended by several distinct ones answer with the last of these that bind the name. -/
theorem get?_foldl_extend {β : Type} (part : β → Fields α) {parts : List β}
    (h : ∀ entry ∈ parts, (part entry).Distinct) (fields : Fields α) (name : String) :
    get? (parts.foldl (fun acc entry => acc.extend (part entry)) fields) name =
      (parts.reverse.findSome? fun entry => (part entry).get? name).or (fields.get? name) := by
  induction parts generalizing fields with
  | nil => simp
  | cons entry parts ih =>
    obtain ⟨hentry, hrest⟩ := List.forall_mem_cons.mp h
    rw [List.foldl_cons, ih hrest, get?_extend_of_distinct fields hentry, List.reverse_cons,
      List.findSome?_append, List.findSome?_singleton, Option.or_assoc]

/-- Binding a name among distinct ones replaces the value of its entry, or adds an entry at the
end. -/
theorem Distinct.insert_eq {fields : Fields α} (h : fields.Distinct) (name : String) (value : α) :
    Fields.insert name value fields =
      if name ∈ fields.names
      then fields.map fun entry => if entry.1 = name then (entry.1, value) else entry
      else fields ++ [(name, value)] := by
  induction fields with
  | nil => rfl
  | cons entry rest ih =>
    obtain ⟨bound, old⟩ := entry
    obtain ⟨hnew, hrest⟩ := h.cons
    by_cases heq : bound = name
    · subst heq
      have hkeep : rest.map (fun entry => if entry.1 = bound then (entry.1, value) else entry) =
          rest := by
        refine (List.map_congr_left fun other hother => if_neg ?_).trans (List.map_id rest)
        rintro rfl
        exact hnew (List.mem_map_of_mem hother)
      simp [Fields.insert, names, hkeep]
    · rw [Fields.insert, if_neg heq, ih hrest]
      have hmem : name ∈ names ((bound, old) :: rest) ↔ name ∈ names rest := by
        simp [names, Ne.symm heq]
      by_cases hname : name ∈ names rest
      · rw [if_pos hname, if_pos (hmem.mpr hname), List.map_cons, if_neg heq]
      · rw [if_neg hname, if_neg (mt hmem.mp hname), List.cons_append]

/-- Binding a name that is not bound adds an entry at the end. -/
theorem insert_of_get?_eq_none {fields : Fields α} {name : String} (h : fields.get? name = none)
    (value : α) : insert name value fields = fields ++ [(name, value)] := by
  induction fields with
  | nil => rfl
  | cons entry rest ih =>
    obtain ⟨bound, old⟩ := entry
    rw [get?_cons] at h
    split at h
    · cases h
    · rename_i hne
      rw [insert, if_neg hne, ih h, List.cons_append]

/-- Extended by distinct fields, distinct fields keep their places; their values are replaced where
the later fields bind the name, and the other later entries follow. -/
theorem Distinct.extend_eq {fields later : Fields α} (h : fields.Distinct)
    (hlater : later.Distinct) :
    fields.extend later =
      (fields.map fun entry => (entry.1, (later.get? entry.1).getD entry.2)) ++
        List.filter (fun entry => !fields.contains entry.1) later := by
  induction later generalizing fields with
  | nil => simp [Fields.extend]
  | cons entry later ih =>
    obtain ⟨name, value⟩ := entry
    obtain ⟨hnew, hrest⟩ := hlater.cons
    have hunbound : get? later name = none := get?_eq_none_iff.mpr hnew
    have hextend : fields.extend ((name, value) :: later) =
        (Fields.insert name value fields).extend later := rfl
    rw [hextend, ih (h.insert name value) hrest]
    -- A later entry of another name is new after the binding exactly if it was before.
    have hfilter :
        List.filter (fun entry => !(Fields.insert name value fields).contains entry.1) later =
          List.filter (fun entry => !fields.contains entry.1) later := by
      refine List.filter_congr fun other hother => ?_
      have hne : name ≠ other.1 := by
        rintro rfl
        exact hnew (List.mem_map_of_mem hother)
      rw [contains, contains, get?_insert, if_neg hne]
    rw [hfilter, h.insert_eq]
    by_cases hname : name ∈ fields.names
    · have hcontains : fields.contains name = true := (contains_iff_mem_names _ _).mpr hname
      rw [if_pos hname, List.map_map, List.filter_cons_of_neg (by simpa using hcontains)]
      congr 1
      refine List.map_congr_left fun other _ => ?_
      by_cases heq : other.1 = name
      · simp [heq, hunbound]
      · simp [heq, Ne.symm heq]
    · have hcontains : fields.contains name = false := contains_eq_false_iff.mpr hname
      rw [if_neg hname, List.map_append, List.filter_cons_of_pos (by simpa using hcontains),
        List.append_assoc]
      congr 1
      · refine List.map_congr_left fun other hother => ?_
        have hne : name ≠ other.1 := by
          rintro rfl
          exact hname (List.mem_map_of_mem hother)
        rw [get?_cons, if_neg hne]
      · simp [hunbound]

/-- A lookup among entries with computed names finds the first entry that gets the name. -/
theorem get?_map_eq_find? {β : Type} (entries : List β) (title : β → String) (value : β → α)
    (name : String) :
    get? (entries.map fun entry => (title entry, value entry)) name =
      (entries.find? fun entry => title entry = name).map value := by
  induction entries with
  | nil => rfl
  | cons entry entries ih => by_cases h : title entry = name <;> simp [h, ih]

/-- Fields filled up by later ones answer with their own bindings first. -/
theorem get?_extendNew (fields later : Fields α) (name : String) :
    (fields.extendNew later).get? name = (fields.get? name).or (later.get? name) := by
  unfold extendNew
  induction later generalizing fields with
  | nil => simp
  | cons entry later ih =>
    obtain ⟨bound, value⟩ := entry
    rw [List.foldl_cons, ih, get?_insertNew, Option.or_assoc]
    congr 1
    by_cases h : bound = name <;> simp [h]

/-- Filling fields up adds each new name once, where it comes first. -/
theorem names_extendNew (fields later : Fields α) :
    (fields.extendNew later).names =
      fields.names ++ (later.names.filter fun name => name ∉ fields.names).eraseDups := by
  unfold extendNew
  induction later generalizing fields with
  | nil => simp [names]
  | cons entry later ih =>
    obtain ⟨name, value⟩ := entry
    have hnames : names ((name, value) :: later) = name :: names later := rfl
    rw [List.foldl_cons, ih, names_insertNew, hnames]
    by_cases hname : name ∈ fields.names
    · rw [if_pos hname, List.filter_cons_of_neg (by simpa using hname)]
    · have hfilter : (names later).filter (fun other => other ∉ fields.names ++ [name]) =
          ((names later).filter fun other => other ∉ fields.names).filter fun other =>
            !other == name := by
        rw [List.filter_filter]
        refine List.filter_congr fun other _ => ?_
        simp [and_comm, Bool.beq_eq_decide_eq]
      rw [if_neg hname, List.filter_cons_of_pos (by simpa using hname), List.eraseDups_cons,
        hfilter, List.append_assoc, List.singleton_append]

/-- Binding names over fields and filling fields up leave the same names, for the values do not
matter to them. -/
theorem names_extend_eq_names_extendNew {fields others : Fields α}
    (h : fields.names = others.names) (later : Fields α) :
    (fields.extend later).names = (others.extendNew later).names := by
  unfold extend extendNew
  induction later generalizing fields others with
  | nil => exact h
  | cons entry later ih => exact ih (by rw [names_insert, names_insertNew, h])

/-- Binding names over fields keeps the old names in their places and adds each new one once, where
it comes first. -/
theorem names_extend (fields later : Fields α) :
    (fields.extend later).names =
      fields.names ++ (later.names.filter fun name => name ∉ fields.names).eraseDups :=
  (names_extend_eq_names_extendNew rfl later).trans (names_extendNew fields later)

/-- A name is bound in fields filled up by others exactly when one of the two binds it. -/
theorem mem_names_extendNew {fields later : Fields α} {name : String} :
    name ∈ (fields.extendNew later).names ↔ name ∈ fields.names ∨ name ∈ later.names := by
  by_cases hname : name ∈ fields.names <;>
    simp [names_extendNew, List.mem_eraseDups, hname]

/-- Filling a name keeps names distinct. -/
theorem Distinct.insertNew {fields : Fields α} (h : fields.Distinct) (name : String) (value : α) :
    Distinct (Fields.insertNew name value fields) := by
  have hnames := (names_insertNew fields name value).trans (names_insert fields name value).symm
  rw [Distinct, hnames]
  exact h.insert name value

/-- Filling fields up keeps names distinct. -/
theorem Distinct.extendNew {fields : Fields α} (h : fields.Distinct) (later : Fields α) :
    Distinct (fields.extendNew later) := by
  unfold Fields.extendNew
  induction later generalizing fields with
  | nil => exact h
  | cons entry later ih => exact ih (h.insertNew entry.1 entry.2)

/-- Filled up by entries of other names, fields are followed by these. -/
theorem extendNew_of_distinct {fields later : Fields α} (h : Distinct (fields ++ later)) :
    fields.extendNew later = fields ++ later := by
  unfold extendNew
  induction later generalizing fields with
  | nil => simp
  | cons entry later ih =>
    rw [List.append_cons] at h ⊢
    have hnew : fields.contains entry.1 = false := by
      rw [contains_eq_false_iff]
      intro hmem
      have hnodup := h
      simp only [Distinct, names, List.map_append, List.map_singleton] at hnodup
      have hfront := (List.nodup_append.mp hnodup).1
      exact (List.nodup_append.mp hfront).2.2 _ hmem _ (List.mem_singleton_self _) rfl
    have hinsert : insertNew entry.1 entry.2 fields = fields ++ [entry] := by
      simp [insertNew, hnew]
    rw [List.foldl_cons, hinsert]
    exact ih h

/-- Binding a list one after another, a lookup finds the last binding of a name. -/
theorem get?_ofList (entries : List (String × α)) (name : String) :
    (ofList entries).get? name = get? entries.reverse name := by
  rw [ofList, get?_extend]
  simp

/-- Binding distinct names one after another, a lookup finds each. -/
theorem get?_ofList_of_distinct {entries : Fields α} (h : entries.Distinct) (name : String) :
    (ofList entries).get? name = entries.get? name := by
  rw [get?_ofList, ← h.get?_perm (List.reverse_perm entries).symm]

/-- An entry after a binding is the new one or an old one. -/
theorem mem_insert {fields : Fields α} {name : String} {value : α} {entry : String × α}
    (h : entry ∈ insert name value fields) : entry = (name, value) ∨ entry ∈ fields := by
  induction fields with
  | nil => simpa [insert] using h
  | cons first rest ih =>
    obtain ⟨bound, old⟩ := first
    rw [insert] at h
    split at h
    · rename_i hbound
      rcases List.mem_cons.mp h with heq | hmem
      · exact .inl (hbound ▸ heq)
      · exact .inr (List.mem_cons_of_mem _ hmem)
    · rcases List.mem_cons.mp h with heq | hmem
      · exact .inr (heq ▸ List.mem_cons_self)
      · exact (ih hmem).imp_right (List.mem_cons_of_mem _)

/-- A binding keeps the entries of all other names. -/
theorem mem_insert_of_ne {fields : Fields α} {name : String} {entry : String × α}
    (h : entry ∈ fields) (hne : entry.1 ≠ name) (value : α) :
    entry ∈ insert name value fields := by
  induction fields with
  | nil => simp at h
  | cons first rest ih =>
    obtain ⟨bound, old⟩ := first
    rw [insert]
    split
    · rename_i hbound
      rcases List.mem_cons.mp h with heq | hmem
      · subst heq
        exact absurd hbound hne
      · exact List.mem_cons_of_mem _ hmem
    · rcases List.mem_cons.mp h with heq | hmem
      · exact heq ▸ List.mem_cons_self
      · exact List.mem_cons_of_mem _ (ih hmem)

/-- An entry of extended fields comes from one of the two. -/
theorem mem_extend {fields later : Fields α} {entry : String × α}
    (h : entry ∈ fields.extend later) : entry ∈ fields ∨ entry ∈ later := by
  unfold extend at h
  induction later generalizing fields with
  | nil => exact .inl h
  | cons first later ih =>
    rcases ih h with hmem | hmem
    · rcases mem_insert hmem with heq | hmem
      · exact .inr (heq ▸ List.mem_cons_self)
      · exact .inl hmem
    · exact .inr (List.mem_cons_of_mem _ hmem)

/-- An entry after filling a name is the new one or an old one. -/
theorem mem_insertNew {fields : Fields α} {name : String} {value : α} {entry : String × α}
    (h : entry ∈ insertNew name value fields) : entry = (name, value) ∨ entry ∈ fields := by
  unfold insertNew at h
  split at h
  · exact .inr h
  · exact (List.mem_append.mp h).symm.imp_left List.mem_singleton.mp

/-- An entry of fields filled up by others comes from one of the two. -/
theorem mem_extendNew {fields later : Fields α} {entry : String × α}
    (h : entry ∈ fields.extendNew later) : entry ∈ fields ∨ entry ∈ later := by
  unfold extendNew at h
  induction later generalizing fields with
  | nil => exact .inl h
  | cons first later ih =>
    rcases ih h with hmem | hmem
    · rcases mem_insertNew hmem with heq | hmem
      · exact .inr (heq ▸ List.mem_cons_self)
      · exact .inl hmem
    · exact .inr (List.mem_cons_of_mem _ hmem)

/-- Every entry of the fields is one of the bindings that made them. -/
theorem mem_of_mem_ofList {entries : List (String × α)} {entry : String × α}
    (h : entry ∈ ofList entries) : entry ∈ entries :=
  (mem_extend h).resolve_left (List.not_mem_nil)

end PosterOverlay.Fields
