import BatchExport.Text.Csv

/-! Rows of comma-separated values that are read back. Main statement: a reader of the format finds in written rows the
fields as they were. -/
namespace BatchExport.Csv

/-- What may stand in a field without quotes. -/
def isBare (c : Char) : Bool := !(c == ',' || c == '"' || c == '\n' || c == '\r')

/-- The rest of a quoted field after its opening quote; a quote written twice is one of the field. -/
def quotedTail? : List Char → Option (List Char × List Char)
  | '"' :: '"' :: rest => (quotedTail? rest).map fun (field, rest) => ('"' :: field, rest)
  | '"' :: rest => some ([], rest)
  | c :: rest => (quotedTail? rest).map fun (field, rest) => (c :: field, rest)
  | [] => none

def field? : List Char → Option (List Char × List Char)
  | '"' :: rest => quotedTail? rest
  | cs => some (cs.takeWhile isBare, cs.dropWhile isBare)

/-- The fields of one row, which ends with a line break or with the text. -/
def row? : Nat → List Char → Option (List (List Char) × List Char)
  | 0, _ => none
  | n + 1, cs => do
    let (field, rest) ← field? cs
    match rest with
    | ',' :: rest => do
      let (more, rest) ← row? n rest
      return (field :: more, rest)
    | '\n' :: rest | '\r' :: '\n' :: rest => some ([field], rest)
    | [] => some ([field], [])
    | _ => none

def rowsWithin? : Nat → List Char → Option (List (List (List Char)))
  | _, [] => some []
  | 0, _ => none
  | n + 1, cs => do
    let (row, rest) ← row? (cs.length + 1) cs
    let more ← rowsWithin? n rest
    return row :: more

/-- The rows that a whole text holds. -/
def read? (cs : List Char) : Option (List (List (List Char))) := rowsWithin? cs.length cs

/-- What comes after a field. -/
def EndsField (rest : List Char) : Prop := ∃ more, rest = ',' :: more ∨ rest = '\n' :: more

theorem quotedTail?_doubled (field : List Char) {rest : List Char} (h : EndsField rest) :
    quotedTail? (doubled field ++ '"' :: rest) = some (field, rest) := by
  induction field with
  | nil =>
    obtain ⟨more, rfl | rfl⟩ := h <;> simp [doubled, quotedTail?]
  | cons c field ih =>
    rw [doubled]
    by_cases hc : c = '"'
    · simp [hc, quotedTail?, ih]
    · simp [hc, quotedTail?, ih]

/-- A field without quotes reaches up to the first character that may not stand in one. -/
private theorem field?_bare {field rest : List Char} (hfield : ∀ c ∈ field, isBare c = true) (h : EndsField rest) :
    field? (field ++ rest) = some (field, rest) := by
  have hrest : rest.takeWhile isBare = [] ∧ rest.dropWhile isBare = rest := by
    obtain ⟨more, rfl | rfl⟩ := h <;> simp [isBare]
  have hunquoted : ∀ more, field ++ rest = '"' :: more → False := by
    intro more heq
    cases field with
    | nil => obtain ⟨_, rfl | rfl⟩ := h <;> cases heq
    | cons c field =>
      cases heq
      exact absurd (hfield '"' List.mem_cons_self) (by decide)
  rw [field?]
  · rw [List.takeWhile_append_of_pos hfield, List.dropWhile_append_of_pos hfield, hrest.1, hrest.2, List.append_nil]
  · exact hunquoted

theorem field?_writeField (field : List Char) {rest : List Char} (h : EndsField rest) :
    field? (writeField field ++ rest) = some (field, rest) := by
  rw [writeField]
  split
  · have hread := quotedTail?_doubled field h
    simp [field?, hread]
  · rename_i hbare
    refine field?_bare (fun c hc => ?_) h
    simp only [needsQuotes, List.any_eq_true, not_exists, not_and] at hbare
    simpa [isBare] using hbare c hc

theorem row?_intercalate (field : List Char) (more : List (List Char)) (rest : List Char) {n : Nat}
    (h : more.length < n) :
    row? n (List.intercalate [','] ((field :: more).map writeField) ++ '\n' :: rest) = some (field :: more, rest) := by
  induction more generalizing field n with
  | nil =>
    cases n with
    | zero => cases h
    | succ n =>
      have hfield := field?_writeField field ⟨rest, .inr rfl⟩
      simp [row?, hfield]
  | cons next more ih =>
    cases n with
    | zero => cases h
    | succ n =>
      have hmore := ih next (Nat.lt_of_succ_lt_succ h)
      have hfield := field?_writeField field
        ⟨List.intercalate [','] ((next :: more).map writeField) ++ '\n' :: rest, .inl rfl⟩
      rw [List.map_cons] at hmore hfield
      simp [row?, List.intercalate_cons_cons, hfield, hmore]

private theorem length_le_intercalate (fields : List (List Char)) :
    fields.length ≤ (List.intercalate [','] fields).length + 1 := by
  induction fields with
  | nil => exact Nat.zero_le _
  | cons field more ih =>
    cases more with
    | nil => simp
    | cons next more =>
      rw [List.intercalate_cons_cons, List.length_append, List.length_append, List.length_cons, List.length_singleton]
      omega

theorem row?_writeRow {fields : List (List Char)} (hne : fields ≠ []) (rest : List Char) {n : Nat}
    (h : fields.length ≤ n) : row? n (writeRow fields ++ rest) = some (fields, rest) := by
  obtain ⟨field, more, rfl⟩ := List.exists_cons_of_ne_nil hne
  rw [writeRow]
  split
  · rename_i hempty
    cases hempty
    have hfield := quotedTail?_doubled [] (⟨rest, .inr rfl⟩ : EndsField ('\n' :: rest))
    rw [doubled, List.nil_append] at hfield
    cases n with
    | zero => cases h
    | succ n => simp [row?, field?, hfield]
  · rw [List.append_assoc, List.singleton_append]
    exact row?_intercalate field more rest h

/-- A row has a character for each field at least, its line break included. -/
private theorem length_le_writeRow (fields : List (List Char)) :
    fields.length ≤ (writeRow fields).length := by
  rw [writeRow]
  split
  · rename_i hempty
    rw [hempty]
    decide
  · have hfields := length_le_intercalate (fields.map writeField)
    rw [List.length_map] at hfields
    rw [List.length_append, List.length_singleton]
    omega

/-- Written rows are read as they were. -/
theorem read?_writeRows {rows : List (List (List Char))} (h : ∀ row ∈ rows, row ≠ []) :
    read? (rows.flatMap writeRow) = some rows := by
  have hwithin (n : Nat) (hn : (rows.flatMap writeRow).length ≤ n) :
      rowsWithin? n (rows.flatMap writeRow) = some rows := by
    induction rows generalizing n with
    | nil => rw [List.flatMap_nil, rowsWithin?]
    | cons row rows ih =>
      have hne := h row List.mem_cons_self
      have hlength := length_le_writeRow row
      have hpos : 0 < row.length := List.length_pos_iff.mpr hne
      rw [List.flatMap_cons, List.length_append] at hn
      cases n with
      | zero => omega
      | succ n =>
        have hmore := ih (fun r hr => h r (List.mem_cons_of_mem _ hr)) n (by omega)
        rw [List.flatMap_cons, rowsWithin?, row?_writeRow hne _ (by rw [List.length_append]; omega)]
        · simp only [Option.bind_eq_bind, Option.bind_some, hmore, Option.pure_def]
        · intro hnil
          rw [List.append_eq_nil_iff] at hnil
          rw [hnil.1] at hlength
          exact absurd hlength (Nat.not_le_of_lt hpos)
  exact hwithin _ (Nat.le_refl _)

end BatchExport.Csv
