/-!
# Named fields in order

Fields bind names to values and remember the order in which the names were first bound. Writing
to a bound name replaces its value in place; a new name goes to the end. The view of fields is
`get?`, and each operation says here what it does to that view and to the order of the names.
-/

namespace PosterOverlay

/-- Names with their values, in the order of first binding. -/
abbrev Fields (α : Type) := List (String × α)

namespace Fields

variable {α β : Type}

/-- The value bound to a name. -/
def get? : Fields α → String → Option α
  | [], _ => none
  | (bound, value) :: rest, name => if bound = name then some value else get? rest name

/-- Whether a name is bound. -/
def contains (fields : Fields α) (name : String) : Bool :=
  (fields.get? name).isSome

/-- The bound names in order. -/
def names (fields : Fields α) : List String :=
  fields.map Prod.fst

/-- No name is bound twice. -/
def Distinct (fields : Fields α) : Prop :=
  fields.names.Nodup

/-- Binds a name, in place when it is bound already and at the end otherwise. -/
def insert (name : String) (value : α) : Fields α → Fields α
  | [] => [(name, value)]
  | (bound, old) :: rest =>
    if bound = name then (bound, value) :: rest else (bound, old) :: insert name value rest

/-- Binds a name unless it is bound already. -/
def insertNew (name : String) (value : α) (fields : Fields α) : Fields α :=
  if fields.contains name then fields else fields ++ [(name, value)]

/-- Binds every name of `later`, in its order, over the fields. -/
def extend (fields later : Fields α) : Fields α :=
  later.foldl (fun acc entry => insert entry.1 entry.2 acc) fields

/-- Binds those names of `later`, in its order, that are not bound yet. -/
def extendNew (fields later : Fields α) : Fields α :=
  later.foldl (fun acc entry => insertNew entry.1 entry.2 acc) fields

/-- The fields that a list of bindings leaves when they are made one after another. -/
def ofList (entries : List (String × α)) : Fields α :=
  extend [] entries

/-- Binds those of the names to which a function gives a value, in their order. -/
def tabulate (names : List String) (f : String → Option α) : Fields α :=
  names.filterMap fun name => (f name).map fun value => (name, value)

@[simp] theorem get?_nil (name : String) : get? ([] : Fields α) name = none := rfl

@[simp] theorem get?_cons (bound name : String) (value : α) (rest : Fields α) :
    get? ((bound, value) :: rest) name = if bound = name then some value else get? rest name := rfl

theorem get?_tabulate (names : List String) (f : String → Option α) (name : String) :
    get? (tabulate names f) name = if name ∈ names then f name else none := by
  unfold tabulate
  induction names with
  | nil => rfl
  | cons first rest ih =>
    cases hf : f first with
    | none =>
      by_cases h : name = first
      · subst h
        simp [hf, ih]
      · simp [hf, ih, h]
    | some value =>
      by_cases h : first = name
      · subst h
        simp [hf]
      · simp [hf, ih, h, Ne.symm h]

theorem get?_append (front back : Fields α) (name : String) :
    get? (front ++ back) name = (get? front name).or (get? back name) := by
  induction front with
  | nil => simp
  | cons entry front ih =>
    obtain ⟨bound, value⟩ := entry
    by_cases h : bound = name <;> simp [h, ih]

theorem get?_insert (fields : Fields α) (name name' : String) (value : α) :
    get? (insert name value fields) name' =
      if name = name' then some value else get? fields name' := by
  induction fields with
  | nil => rfl
  | cons entry rest ih =>
    obtain ⟨bound, old⟩ := entry
    by_cases h : bound = name
    · subst h
      by_cases h' : bound = name' <;> simp [insert, h']
    · by_cases h' : bound = name'
      · subst h'
        simp [insert, h, Ne.symm h]
      · simp [insert, h, h', ih]

theorem get?_insertNew (fields : Fields α) (name name' : String) (value : α) :
    get? (insertNew name value fields) name' =
      (get? fields name').or (if name = name' then some value else none) := by
  unfold insertNew contains
  split
  · rename_i h
    by_cases h' : name = name'
    · subst h'
      obtain ⟨old, hold⟩ := Option.isSome_iff_exists.mp h
      simp [hold]
    · simp [h']
  · simp [get?_append]

theorem contains_iff_mem_names (fields : Fields α) (name : String) :
    fields.contains name = true ↔ name ∈ fields.names := by
  unfold contains names
  induction fields with
  | nil => simp
  | cons entry rest ih =>
    obtain ⟨bound, value⟩ := entry
    by_cases h : bound = name
    · simp [h]
    · simp [h, Ne.symm h, ih]

theorem names_insert (fields : Fields α) (name : String) (value : α) :
    (insert name value fields).names =
      if name ∈ fields.names then fields.names else fields.names ++ [name] := by
  unfold names
  induction fields with
  | nil => simp [insert]
  | cons entry rest ih =>
    obtain ⟨bound, old⟩ := entry
    by_cases h : bound = name
    · simp [insert, h]
    · simp only [insert, h, ↓reduceIte, List.map_cons, ih, List.mem_cons, Ne.symm h, false_or]
      split <;> simp

theorem names_insertNew (fields : Fields α) (name : String) (value : α) :
    (insertNew name value fields).names =
      if name ∈ fields.names then fields.names else fields.names ++ [name] := by
  unfold insertNew
  by_cases h : name ∈ fields.names
  · simp [(contains_iff_mem_names fields name).mpr h, h]
  · rw [if_neg h, if_neg (mt (contains_iff_mem_names fields name).mp h)]
    simp [names]

theorem Distinct.insert {fields : Fields α} (h : fields.Distinct) (name : String) (value : α) :
    Distinct (insert name value fields) := by
  unfold Distinct at *
  rw [names_insert]
  split
  · exact h
  · rename_i hnew
    rw [List.nodup_append]
    refine ⟨h, by simp, ?_⟩
    rintro a ha b hb rfl
    simp only [List.mem_singleton] at hb
    exact hnew (hb ▸ ha)

theorem Distinct.extend {fields : Fields α} (h : fields.Distinct) (later : Fields α) :
    Distinct (fields.extend later) := by
  unfold Fields.extend
  induction later generalizing fields with
  | nil => exact h
  | cons entry later ih => exact ih (h.insert entry.1 entry.2)

/-- Bindings made one after another never leave a name bound twice. -/
theorem distinct_ofList (entries : List (String × α)) : Distinct (ofList entries) :=
  Distinct.extend (by simp [Distinct, names]) entries

end Fields

end PosterOverlay
