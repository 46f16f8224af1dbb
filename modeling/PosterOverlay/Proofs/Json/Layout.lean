import PosterOverlay.Proofs.Json.Rows
import PosterOverlay.Proofs.Value.Distinct

/-!
# Reading what was written

Compact texts and indented ones differ in the blanks between their parts only. A layout is a writer
that puts blanks at these places; whatever the blanks are, the text of a value reads back as the
value. There must be no double in the value, for JSON does not tell all of them apart; its whole
numbers must fit in 64 bits, its mappings must not bind a name twice, and it must not nest deeper
than the reader goes.
-/

namespace PosterOverlay

namespace Value

mutual

/-- Inside the value there is no double, and every whole number fits in 64 bits. -/
def IsWhole : Value → Prop
  | int i => -2 ^ 63 ≤ i ∧ i < 2 ^ 64
  | float _ => False
  | sequence items => ItemsWhole items
  | mapping fields => FieldsWhole fields
  | _ => True

/-- All items are whole. -/
def ItemsWhole : List Value → Prop
  | [] => True
  | item :: rest => IsWhole item ∧ ItemsWhole rest

/-- The values of all fields are whole. -/
def FieldsWhole : List (String × Value) → Prop
  | [] => True
  | (_, value) :: rest => IsWhole value ∧ FieldsWhole rest

end

theorem itemsWhole_iff {items : List Value} :
    ItemsWhole items ↔ ∀ item ∈ items, item.IsWhole := by
  induction items with
  | nil => simp [ItemsWhole]
  | cons item rest ih => simp [ItemsWhole, ih]

theorem fieldsWhole_iff {fields : List (String × Value)} :
    FieldsWhole fields ↔ ∀ field ∈ fields, field.2.IsWhole := by
  induction fields with
  | nil => simp [FieldsWhole]
  | cons field rest ih => simp [FieldsWhole, ih]

mutual

/-- How deep sequences and mappings are nested; one that is empty counts as well. -/
def depth : Value → Nat
  | sequence items => itemsDepth items + 1
  | mapping fields => fieldsDepth fields + 1
  | _ => 0

/-- The depth of the deepest item. -/
def itemsDepth : List Value → Nat
  | [] => 0
  | item :: rest => max (depth item) (itemsDepth rest)

/-- The depth of the deepest value of a field. -/
def fieldsDepth : List (String × Value) → Nat
  | [] => 0
  | (_, value) :: rest => max (depth value) (fieldsDepth rest)

end

theorem itemsDepth_le_iff {items : List Value} {bound : Nat} :
    itemsDepth items ≤ bound ↔ ∀ item ∈ items, item.depth ≤ bound := by
  induction items with
  | nil => simp [itemsDepth]
  | cons item rest ih => simp only [itemsDepth, Nat.max_le, ih, List.forall_mem_cons]

theorem fieldsDepth_le_iff {fields : List (String × Value)} {bound : Nat} :
    fieldsDepth fields ≤ bound ↔ ∀ field ∈ fields, field.2.depth ≤ bound := by
  induction fields with
  | nil => simp [fieldsDepth]
  | cons field rest ih => simp only [fieldsDepth, Nat.max_le, ih, List.forall_mem_cons]

/-- What JSON keeps of a value is the value itself: there is no double, whole numbers fit in 64
bits, no mapping binds a name twice, and the nesting stays within the bound of the reader. -/
structure FitsJson (value : Value) : Prop where
  whole : value.IsWhole
  distinct : value.Distinct
  depth_le : value.depth ≤ Json.maxDepth

end Value

namespace Json

/-! ### Single values -/

section

variable (inside? : Option (Reader Value))

/-- Blanks before a value are skipped. -/
theorem skipsSpaces_valueWith : SkipsSpaces (valueWith inside?) := fun text => by
  rw [valueWith, skipSpaces_skipSpaces, ← valueWith]

theorem skipsSpaces_valueAt (depth : Nat) : SkipsSpaces (valueAt depth) := by
  cases depth <;> exact skipsSpaces_valueWith _

/-- A minus sign or a digit opens a numeral. -/
theorem valueWith_numeral {c : Char} (hc : c = '-' ∨ c.isDigit = true)
    (hspace : isSpace c = false) (rest : List Char) :
    valueWith inside? (c :: rest) = number (c :: rest) := by
  rw [valueWith, skipSpaces_cons hspace]
  split
  case h_7 => rfl
  all_goals
    rename_i heq
    cases heq
    exact absurd hc (by decide)

/-- A quoted text is read back. -/
theorem reads_quoted (s : String) : Reads (valueWith inside?) (.string s) (quoted s) where
  opens := ⟨'"', rfl, by decide⟩
  reads rest _ := by
    have hread := textAfter_flatMap_escapeChar [] s.toList rest
    have hvalue : valueWith inside? (quoted s ++ rest) =
        (textAfter [] (s.toList.flatMap escapeChar ++ ['"'] ++ rest)).map
          fun found => (.string found.1, found.2) := rfl
    rw [hvalue, List.append_assoc, List.singleton_append, hread]
    simp

/-- The text of a whole number opens with a minus sign or a digit. -/
theorem exists_integerChars_eq_cons (i : Int) :
    ∃ c rest, Text.integerChars i = c :: rest ∧ (c = '-' ∨ c.isDigit = true) := by
  rw [Text.integerChars]
  split
  · exact ⟨'-', _, rfl, .inl rfl⟩
  · obtain ⟨c, rest, htext⟩ := List.exists_cons_of_ne_nil (Text.decimalDigits_ne_nil i.natAbs)
    have hdigits := Text.isDigit_decimalDigits i.natAbs
    exact ⟨c, rest, htext, .inr (hdigits c (htext ▸ List.mem_cons_self))⟩

/-- The text of a whole number that fits in 64 bits is read back. -/
theorem reads_integerChars {i : Int} (hlow : -2 ^ 63 ≤ i) (hhigh : i < 2 ^ 64) :
    Reads (valueWith inside?) (.int i) (Text.integerChars i) := by
  obtain ⟨c, text, htext, hc⟩ := exists_integerChars_eq_cons i
  have hspace : isSpace c = false := by
    rw [Bool.eq_false_iff]
    intro hspace
    rcases isSpace_iff.mp hspace with rfl | rfl | rfl | rfl <;> exact absurd hc (by decide)
  have hopen : ¬ IsClosing c := by
    rintro (rfl | rfl) <;> exact absurd hc (by decide)
  refine ⟨⟨c, by rw [htext]; rfl, hspace, hopen⟩, fun rest hrest => ?_⟩
  have hread := Numeral.at?_integerChars i hrest
  rw [htext, List.cons_append] at hread ⊢
  rw [valueWith_numeral inside? hc hspace, number, hread]
  simp [Numeral.value?, Numeral.int?_decimalDigits hlow hhigh]

/-- A whole value that holds no others is read back. -/
theorem reads_scalar {value : Value} (hwhole : value.IsWhole) (hsequence : value.sequence? = none)
    (hmapping : value.mapping? = none) : Reads (valueWith inside?) value (scalar value) := by
  cases value with
  | null => exact ⟨⟨'n', rfl, by decide⟩, fun rest _ => rfl⟩
  | bool b =>
    cases b with
    | true => exact ⟨⟨'t', rfl, by decide⟩, fun rest _ => rfl⟩
    | false => exact ⟨⟨'f', rfl, by decide⟩, fun rest _ => rfl⟩
  | int i => exact reads_integerChars inside? hwhole.1 hwhole.2
  | float x => exact hwhole.elim
  | string s => exact reads_quoted inside? s
  | sequence items => cases hsequence
  | mapping fields => cases hmapping

end

/-! ### Fields -/

/-- Blanks before a field are skipped. -/
theorem skipsSpaces_field (value : Reader Value) : SkipsSpaces (field value) := fun text => by
  rw [field, skipSpaces_skipSpaces, ← field]

/-- Behind a name and a colon the value of a field is read. -/
theorem field_of_textAfter {reader : Reader Value} {text rest : List Char} {name : String}
    (h : textAfter [] text = some (name, ':' :: rest)) :
    field reader ('"' :: text) =
      (reader rest).map fun found => ((name, found.1), found.2) := by
  rw [field, skipSpaces_cons (by decide)]
  simp [h, skipSpaces_cons (show isSpace ':' = false by decide)]

/-- A field is read back when its value is; blanks may follow the colon. -/
theorem reads_field {reader : Reader Value} (hreader : SkipsSpaces reader) {gap : List Char}
    (hgap : IsGap gap) {value : Value} {text : List Char} (h : Reads reader value text)
    (name : String) :
    Reads (field reader) (name, value) (quoted name ++ ':' :: (gap ++ text)) where
  opens := ⟨'"', rfl, by decide⟩
  reads rest hrest := by
    have hname := textAfter_flatMap_escapeChar [] name.toList (':' :: (gap ++ (text ++ rest)))
    have hvalue : reader (gap ++ (text ++ rest)) = some (value, rest) := by
      rw [hreader.append hgap, h.reads rest hrest]
    have hquote : quoted name ++ ':' :: (gap ++ text) ++ rest =
        '"' :: (name.toList.flatMap escapeChar ++ '"' :: ':' :: (gap ++ (text ++ rest))) := by
      simp [quoted]
    rw [hquote, field_of_textAfter hname, hvalue]
    simp

/-! ### Sequences and mappings -/

section

variable {inside : Reader Value} {before behind : List Char}

/-- A sequence is read back when its items are. -/
theorem reads_sequence (hinside : SkipsSpaces inside) (hbefore : IsGap before)
    (hbehind : IsGap behind) {write : Value → List Char} {values : List Value}
    (h : ∀ value ∈ values, Reads inside value (write value)) :
    Reads (valueWith (some inside)) (.sequence values)
      ('[' :: row before behind ']' (values.map write)) where
  opens := ⟨'[', rfl, by decide⟩
  reads rest _ := by
    have hvalue (text : List Char) : valueWith (some inside) ('[' :: text) =
        (items inside ']' text).map fun found => (.sequence found.1, found.2) := rfl
    rw [List.cons_append, hvalue, items_row hinside hbefore hbehind (.inl rfl) h rest]
    rfl

/-- A mapping that binds no name twice is read back when its fields are. -/
theorem reads_mapping (hbefore : IsGap before) (hbehind : IsGap behind)
    {write : String × Value → List Char} {fields : Fields Value} (hdistinct : fields.Distinct)
    (h : ∀ entry ∈ fields, Reads (field inside) entry (write entry)) :
    Reads (valueWith (some inside)) (.mapping fields)
      ('\x7b' :: row before behind '\x7d' (fields.map write)) where
  opens := ⟨'\x7b', rfl, by decide⟩
  reads rest _ := by
    have hvalue (text : List Char) : valueWith (some inside) ('\x7b' :: text) =
        (items (field inside) '\x7d' text).bind fun found =>
          if (Fields.names found.1).Nodup then some (.mapping found.1, found.2) else none := rfl
    rw [List.cons_append, hvalue,
      items_row (skipsSpaces_field inside) hbefore hbehind (.inr rfl) h rest]
    exact if_pos hdistinct

end

/-! ### Layouts -/

/-- A way to write values: what a value is made of, in rows, with blanks at certain places. -/
structure Layout where
  /-- The text of a value whose parts stand at the level. -/
  write : Nat → Value → List Char
  /-- What precedes each part at the level. -/
  before : Nat → List Char
  /-- What follows the last part at the level. -/
  behind : Nat → List Char
  /-- What follows the colon behind a name. -/
  colon : List Char
  isGap_before : ∀ level, IsGap (before level)
  isGap_behind : ∀ level, IsGap (behind level)
  isGap_colon : IsGap colon
  write_scalar : ∀ level value, value.sequence? = none → value.mapping? = none →
    write level value = scalar value
  write_sequence : ∀ level items, write level (.sequence items) =
    '[' :: row (before level) (behind level) ']' (items.map (write (level + 1)))
  write_mapping : ∀ level fields, write level (.mapping fields) =
    '\x7b' :: row (before level) (behind level) '\x7d' (fields.map fun field =>
      quoted field.1 ++ ':' :: (colon ++ write (level + 1) field.2))

namespace Layout

variable (layout : Layout)

/-- A whole value that holds no others is read back at any depth. -/
theorem reads_scalar {value : Value} (hwhole : value.IsWhole) (hsequence : value.sequence? = none)
    (hmapping : value.mapping? = none) (depth level : Nat) :
    Reads (valueAt depth) value (layout.write level value) := by
  rw [layout.write_scalar level value hsequence hmapping]
  cases depth <;> exact Json.reads_scalar _ hwhole hsequence hmapping

/-- However it is laid out, a value is read back. The induction is on the depth to which the reader
goes. -/
theorem reads {depth : Nat} {value : Value} (hwhole : value.IsWhole)
    (hdistinct : value.Distinct) (hdepth : value.depth ≤ depth) (level : Nat) :
    Reads (valueAt depth) value (layout.write level value) := by
  induction depth generalizing value level with
  | zero =>
    cases value with
    | sequence items => cases hdepth
    | mapping fields => cases hdepth
    | _ => exact layout.reads_scalar hwhole rfl rfl 0 level
  | succ depth ih =>
    have hinside := skipsSpaces_valueAt depth
    have hbefore := layout.isGap_before level
    have hbehind := layout.isGap_behind level
    cases value with
    | sequence items =>
      have hitems (item : Value) (hitem : item ∈ items) :
          Reads (valueAt depth) item (layout.write (level + 1) item) :=
        ih (Value.itemsWhole_iff.mp hwhole item hitem)
          (Value.distinct_sequence_iff.mp hdistinct item hitem)
          (Value.itemsDepth_le_iff.mp (Nat.le_of_succ_le_succ hdepth) item hitem) (level + 1)
      rw [layout.write_sequence]
      exact reads_sequence hinside hbefore hbehind hitems
    | mapping fields =>
      have hvalues := (Value.distinct_mapping_iff.mp hdistinct).2
      have hfields (entry : String × Value) (hentry : entry ∈ fields) :
          Reads (field (valueAt depth)) entry
            (quoted entry.1 ++ ':' :: (layout.colon ++ layout.write (level + 1) entry.2)) :=
        reads_field hinside layout.isGap_colon
          (ih (Value.fieldsWhole_iff.mp hwhole entry hentry) (hvalues entry hentry)
            (Value.fieldsDepth_le_iff.mp (Nat.le_of_succ_le_succ hdepth) entry hentry)
            (level + 1)) entry.1
      rw [layout.write_mapping]
      exact reads_mapping hbefore hbehind hdistinct.1 hfields
    | _ => exact layout.reads_scalar hwhole rfl rfl (depth + 1) level

end Layout

/-- The later items of a compact sequence stand in a row. -/
theorem compactItems_eq_rowAfter (items : List Value) :
    compactItems items = rowAfter [] [] ']' (items.map compact) := by
  induction items with
  | nil => rfl
  | cons item rest ih => simp [compactItems, rowAfter, ih]

/-- The later fields of a compact mapping stand in a row. -/
theorem compactFields_eq_rowAfter (fields : List (String × Value)) :
    compactFields fields = rowAfter [] [] '\x7d' (fields.map fun field =>
      quoted field.1 ++ ':' :: compact field.2) := by
  induction fields with
  | nil => rfl
  | cons field rest ih => simp [compactFields, rowAfter, ih]

/-- The later items of an indented sequence stand in a row. -/
theorem layoutItems_eq_rowAfter (level : Nat) (items : List Value) :
    layoutItems level items =
      rowAfter (newLine (level + 1)) (newLine level) ']' (items.map (layout (level + 1))) := by
  induction items with
  | nil => rfl
  | cons item rest ih => simp [layoutItems, rowAfter, ih]

/-- The later fields of an indented mapping stand in a row. -/
theorem layoutFields_eq_rowAfter (level : Nat) (fields : List (String × Value)) :
    layoutFields level fields =
      rowAfter (newLine (level + 1)) (newLine level) '\x7d' (fields.map fun field =>
        quoted field.1 ++ ':' :: ' ' :: layout (level + 1) field.2) := by
  induction fields with
  | nil => rfl
  | cons field rest ih => simp [layoutFields, rowAfter, ih]

/-- A line break and the indentation behind it are blanks. -/
theorem isGap_newLine (level : Nat) : IsGap (newLine level) := by
  intro c hc
  rcases List.mem_cons.mp hc with rfl | hspace
  · decide
  · rw [List.eq_of_mem_replicate hspace]
    decide

/-- Compact texts have no blanks between their parts. -/
def Layout.compact : Layout where
  write _ := Json.compact
  before _ := []
  behind _ := []
  colon := []
  isGap_before _ := List.forall_mem_nil _
  isGap_behind _ := List.forall_mem_nil _
  isGap_colon := List.forall_mem_nil _
  write_scalar _ value hsequence hmapping := by
    cases value with
    | sequence items => cases hsequence
    | mapping fields => cases hmapping
    | _ => simp [Json.compact]
  write_sequence _ items := by
    cases items with
    | nil => simp [Json.compact, row]
    | cons item rest => simp [Json.compact, row, compactItems_eq_rowAfter]
  write_mapping _ fields := by
    cases fields with
    | nil => simp [Json.compact, row]
    | cons field rest => simp [Json.compact, row, compactFields_eq_rowAfter]

/-- Indented texts have each part on its own line. -/
def Layout.indented : Layout where
  write := Json.layout
  before level := newLine (level + 1)
  behind := newLine
  colon := [' ']
  isGap_before level := isGap_newLine (level + 1)
  isGap_behind := isGap_newLine
  isGap_colon := by simp [IsGap, isSpace]
  write_scalar level value hsequence hmapping := by
    cases value with
    | sequence items => cases hsequence
    | mapping fields => cases hmapping
    | _ => simp [Json.layout]
  write_sequence level items := by
    cases items with
    | nil => simp [Json.layout, row]
    | cons item rest => simp [Json.layout, row, layoutItems_eq_rowAfter]
  write_mapping level fields := by
    cases fields with
    | nil => simp [Json.layout, row]
    | cons field rest => simp [Json.layout, row, layoutFields_eq_rowAfter]

/-! ### Texts of values -/

/-- A text in a layout reads as the value from which it was written. -/
theorem Layout.read?_write (layout : Layout) {value : Value} (h : value.FitsJson) :
    read? (String.ofList (layout.write 0 value)) = some value := by
  have hread := (layout.reads h.whole h.distinct h.depth_le 0).reads [] (by simp [EndsNumeral])
  rw [List.append_nil] at hread
  rw [read?, String.toList_ofList, hread]
  rfl

/-- The compact text of a value reads as the value. -/
theorem read?_write {value : Value} (h : value.FitsJson) : read? (write value) = some value :=
  Layout.compact.read?_write h

/-- The indented text of a value reads as the value. -/
theorem read?_writePretty {value : Value} (h : value.FitsJson) :
    read? (writePretty value) = some value :=
  Layout.indented.read?_write h

/-- Values with the same compact text are equal. -/
theorem write_inj {a b : Value} (ha : a.FitsJson) (hb : b.FitsJson) :
    write a = write b ↔ a = b := by
  refine ⟨fun h => ?_, congrArg write⟩
  have hread := read?_write ha
  rw [h, read?_write hb] at hread
  exact (Option.some.inj hread).symm

end Json

end PosterOverlay
