import BatchExport.Proofs.Json.Members
import BatchExport.Proofs.Json.Numbers

/-! JSON text that is read back. Main statement: a value without doubles is read as it was written, if the reader goes
deep enough. -/
namespace BatchExport.Json

namespace Parser

private theorem hexValue?_hexDigit : ∀ n < 16, Text.hexValue? (Text.hexDigit n) = some n := by
  decide

/-- Four digits after `u` stand for the character with this number. -/
private theorem escape_control {c : Char} (h : c.toNat < 0x20) (rest : List Char) :
    escape ('u' :: '0' :: '0' :: Text.hexDigit (c.toNat / 16) :: Text.hexDigit (c.toNat % 16) :: rest) =
      some (c, rest) := by
  have hhigh := hexValue?_hexDigit (c.toNat / 16) (by omega)
  have hlow := hexValue?_hexDigit (c.toNat % 16) (by omega)
  have hzero : Text.hexValue? '0' = some 0 := by decide
  have hunit : unit? '0' '0' (Text.hexDigit (c.toNat / 16)) (Text.hexDigit (c.toNat % 16)) = some c.toNat := by
    simp only [unit?, hzero, hhigh, hlow, Option.bind_eq_bind, Option.bind_some, Option.pure_def]
    congr 1
    omega
  have htrail : isTrailSurrogate c.toNat = false := by
    simp only [isTrailSurrogate, Bool.and_eq_false_iff, decide_eq_false_iff_not]
    omega
  have hlead : isLeadSurrogate c.toNat = false := by
    simp only [isLeadSurrogate, Bool.and_eq_false_iff, decide_eq_false_iff_not]
    omega
  simp [escape, hunit, htrail, hlead, Char.ofNat_toNat]

/-- A character is read as it was written. -/
theorem stringTail_escapeChar (c : Char) (n : Nat) (rest : List Char) :
    stringTail (n + 1) (escapeChar c ++ rest) =
      (stringTail n rest).bind fun (text, rest) => some (c :: text, rest) := by
  rw [escapeChar]
  iterate 7
    split
    · subst c
      simp [stringTail, escape, shortEscape?]
  split
  · simp [stringTail, escape_control ‹_›]
  · simp [stringTail, *]

theorem stringTail_flatMap (text rest : List Char) {n : Nat} (h : text.length < n) :
    stringTail n (text.flatMap escapeChar ++ '"' :: rest) = some (text, rest) := by
  induction text generalizing n with
  | nil =>
    cases n with
    | zero => cases h
    | succ n => simp [stringTail]
  | cons c text ih =>
    cases n with
    | zero => cases h
    | succ n =>
      rw [List.flatMap_cons, List.append_assoc, stringTail_escapeChar, ih (Nat.lt_of_succ_lt_succ h), Option.bind_some]

private theorem length_le_flatMap (text : List Char) : text.length ≤ (text.flatMap escapeChar).length := by
  have hpos (c : Char) : 1 ≤ (escapeChar c).length := by
    rw [escapeChar]
    repeat' split
    all_goals simp
  induction text with
  | nil => exact Nat.le_refl 0
  | cons c text ih =>
    have hc := hpos c
    rw [List.flatMap_cons, List.length_append, List.length_cons]
    omega

/-- A text is read as it was written, up to its closing quote. -/
theorem string_flatMap (s : String) (rest : List Char) :
    string (s.toList.flatMap escapeChar ++ '"' :: rest) = some (s, rest) := by
  have hlength := length_le_flatMap s.toList
  have htail : stringTail ((s.toList.flatMap escapeChar ++ '"' :: rest).length + 1)
      (s.toList.flatMap escapeChar ++ '"' :: rest) = some (s.toList, rest) := by
    refine stringTail_flatMap s.toList rest ?_
    rw [List.length_append]
    omega
  rw [string, htail]
  simp

end Parser

section Values

/-- No doubles, integers of 64 bits, and members in key order. -/
inductive IsPlain : Json → Prop
  | null : IsPlain .null
  | bool (b : Bool) : IsPlain (.bool b)
  | integer (n : Int) (fits : Parser.FitsWord n) : IsPlain (.number (.integer n))
  | string (s : String) : IsPlain (.string s)
  | array (items : List Json) (plain : ∀ item ∈ items, IsPlain item) : IsPlain (.array items)
  | object (members : List (String × Json)) (ordered : InKeyOrder members)
      (plain : ∀ member ∈ members, IsPlain member.2) : IsPlain (.object members)

mutual

/-- How deep arrays and objects nest. -/
def nesting : Json → Nat
  | .array items => itemsNesting items + 1
  | .object members => membersNesting members + 1
  | _ => 0

def itemsNesting : List Json → Nat
  | [] => 0
  | item :: more => max item.nesting (itemsNesting more)

def membersNesting : List (String × Json) → Nat
  | [] => 0
  | (_, v) :: more => max v.nesting (membersNesting more)

end

/-- An integer starts with its sign or with a digit. -/
private theorem integerText_eq_cons (n : Int) :
    ∃ c more, integerText n = c :: more ∧ (c = '-' ∨ c.isDigit = true) := by
  rw [integerText]
  split
  · exact ⟨_, _, rfl, .inl rfl⟩
  · obtain ⟨c, more, hdigits⟩ := List.exists_cons_of_ne_nil (Nat.toDigits_ne_nil (n := n.natAbs) (b := 10))
    have hc : c.isDigit = true :=
      Nat.isDigit_of_mem_toDigits (by decide) (by decide) (hdigits ▸ List.mem_cons_self)
    exact ⟨c, more, hdigits, .inr hc⟩

/-- Neither blank nor a bracket, a brace or a quote, and no letter. -/
private theorem sign_or_digit_ne {c d : Char} (h : c = '-' ∨ c.isDigit = true)
    (hd : d ∈ [' ', '\n', '\t', '\r', '"', '[', ']', '{', '}', 't', 'f', 'n']) : c ≠ d := by
  rintro rfl
  simp only [List.mem_cons, List.not_mem_nil, or_false] at hd
  rcases hd with rfl | rfl | rfl | rfl | rfl | rfl | rfl | rfl | rfl | rfl | rfl | rfl <;> revert h <;> decide

/-- How the text of a value starts. -/
private theorem write_eq_cons {v : Json} (h : v.IsPlain) :
    ∃ c more, v.write = c :: more ∧ Parser.isSpace c = false ∧ c ≠ ']' := by
  cases h with
  | null => exact ⟨_, _, rfl, by decide, by decide⟩
  | bool b => cases b <;> exact ⟨_, _, rfl, by decide, by decide⟩
  | integer n =>
    obtain ⟨c, more, hwrite, hc⟩ := integerText_eq_cons n
    refine ⟨c, more, hwrite, ?_, sign_or_digit_ne hc (by decide)⟩
    simp [Parser.isSpace, sign_or_digit_ne hc]
  | string s => exact ⟨_, _, rfl, by decide, by decide⟩
  | array items => exact ⟨_, _, rfl, by decide, by decide⟩
  | object members => exact ⟨_, _, rfl, by decide, by decide⟩

private theorem value_integer {n : Int} (h : Parser.FitsWord n) (k depth : Nat) {rest : List Char}
    (hrest : Parser.EndsNumber rest) :
    Parser.value (k + 1) depth (integerText n ++ rest) = some (.number (.integer n), rest) := by
  have hread := Parser.number_integerText h hrest
  obtain ⟨c, more, hwrite, hc⟩ := integerText_eq_cons n
  have hne {d : Char} (hd : d ∈ [' ', '\n', '\t', '\r', '"', '[', ']', '{', '}', 't', 'f', 'n']) : c ≠ d :=
    sign_or_digit_ne hc hd
  have hskip : Parser.skipSpace (c :: (more ++ rest)) = c :: (more ++ rest) := by
    simp [Parser.skipSpace, Parser.isSpace, hne]
  rw [hwrite, List.cons_append] at hread ⊢
  rw [Parser.value, hskip]
  split
  case h_7 =>
    rw [hread]
    rfl
  -- All other values start with other characters.
  all_goals
    rename_i heq
    exact absurd (List.cons.inj heq).1 (hne (by decide))

private theorem writeItems_cons_cons (item next : Json) (more : List Json) :
    writeItems (item :: next :: more) = write item ++ ',' :: writeItems (next :: more) := rfl

private theorem writeMembers_cons_cons (k : String) (v : Json) (next : String × Json) (more : List (String × Json)) :
    writeMembers ((k, v) :: next :: more) = quote k ++ ':' :: write v ++ ',' :: writeMembers (next :: more) := rfl

private theorem writeItems_eq_cons {item : Json} (h : item.IsPlain) (more : List Json) :
    ∃ c tail, writeItems (item :: more) = c :: tail ∧ Parser.isSpace c = false ∧ c ≠ ']' := by
  obtain ⟨c, tail, hwrite, hc⟩ := write_eq_cons h
  cases more with
  | nil => exact ⟨c, tail, hwrite, hc⟩
  | cons next more => exact ⟨c, tail ++ ',' :: writeItems (next :: more), by rw [writeItems_cons_cons, hwrite]; rfl, hc⟩

/-- An array is read as its items are. -/
private theorem value_array {items : List Json} {text rest : List Char} {n depth : Nat} (hdepth : 1 < depth)
    (hstart : ∃ c tail, text = c :: tail ∧ Parser.isSpace c = false ∧ c ≠ ']')
    (hitems : Parser.elements n (depth - 1) (text ++ ']' :: rest) = some (items, rest)) :
    Parser.value (n + 1) depth ('[' :: (text ++ ']' :: rest)) = some (.array items, rest) := by
  obtain ⟨c, tail, rfl, hspace, hclose⟩ := hstart
  have hskip : Parser.skipSpace (c :: tail ++ ']' :: rest) = c :: tail ++ ']' :: rest := by
    simp [Parser.skipSpace, hspace]
  have hbracket (cs : List Char) : Parser.skipSpace ('[' :: cs) = '[' :: cs := by
    simp [Parser.skipSpace, Parser.isSpace]
  rw [Parser.value, hbracket]
  simp only
  rw [if_neg (by omega), hskip]
  split
  · rename_i heq
    exact absurd (List.cons.inj heq).1 hclose
  · rw [hitems]
    rfl

/-- An object is read as its members are; a reader sorts them anew. -/
private theorem value_object {members : List (String × Json)} {text rest : List Char} {n depth : Nat}
    (hdepth : 1 < depth) (ordered : InKeyOrder members) (hstart : ∃ tail, text = '"' :: tail)
    (hmembers : Parser.members n (depth - 1) (text ++ '}' :: rest) = some (members, rest)) :
    Parser.value (n + 1) depth ('{' :: (text ++ '}' :: rest)) = some (.object members, rest) := by
  obtain ⟨tail, rfl⟩ := hstart
  have hskip (cs : List Char) : Parser.skipSpace ('"' :: cs) = '"' :: cs := by
    simp [Parser.skipSpace, Parser.isSpace]
  have hbrace (cs : List Char) : Parser.skipSpace ('{' :: cs) = '{' :: cs := by
    simp [Parser.skipSpace, Parser.isSpace]
  rw [List.cons_append] at hmembers ⊢
  rw [Parser.value, hbrace]
  simp only
  rw [if_neg (by omega), hskip]
  split
  · rename_i heq
    exact absurd (List.cons.inj heq).1 (by decide)
  · simp only [hmembers, Option.bind_eq_bind, Option.bind_some, ofMembers_of_inKeyOrder ordered, Option.pure_def]

private theorem writeMembers_eq_cons (k : String) (v : Json) (more : List (String × Json)) :
    ∃ tail, writeMembers ((k, v) :: more) = '"' :: tail := by
  cases more with
  | nil => exact ⟨_, rfl⟩
  | cons next more => exact ⟨_, rfl⟩

mutual

/-- A value is read as it was written. -/
theorem value_write : (v : Json) → v.IsPlain → ∀ (n depth : Nat) (rest : List Char), 2 * v.write.length ≤ n →
    v.nesting < depth → Parser.EndsNumber rest → Parser.value n depth (v.write ++ rest) = some (v, rest)
  | v, h, 0, depth, rest, hn, _, _ => by
    obtain ⟨c, more, hwrite, -⟩ := write_eq_cons h
    rw [hwrite, List.length_cons] at hn
    omega
  | .null, h, n + 1, depth, rest, hn, hdepth, hrest => by
    simp [write, Parser.value, Parser.skipSpace, Parser.isSpace]
  | .bool true, h, n + 1, depth, rest, hn, hdepth, hrest => by
    simp [write, Parser.value, Parser.skipSpace, Parser.isSpace]
  | .bool false, h, n + 1, depth, rest, hn, hdepth, hrest => by
    simp [write, Parser.value, Parser.skipSpace, Parser.isSpace]
  | .number x, h, n + 1, depth, rest, hn, hdepth, hrest => by
    cases h with
    | integer i fits => exact value_integer fits n depth hrest
  | .string s, h, n + 1, depth, rest, hn, hdepth, hrest => by
    have hread := Parser.string_flatMap s rest
    simp [write, quote, Parser.value, Parser.skipSpace, Parser.isSpace, hread]
  | .array [], h, n + 1, depth, rest, hn, hdepth, hrest => by
    have hdeep : ¬ depth ≤ 1 := by
      rw [nesting, itemsNesting] at hdepth
      omega
    simp [write, writeItems, Parser.value, Parser.skipSpace, Parser.isSpace, hdeep]
  | .array (item :: more), h, n + 1, depth, rest, hn, hdepth, hrest => by
    have hplain : ∀ i ∈ item :: more, IsPlain i := by
      cases h with
      | array _ plain => exact plain
    rw [write, List.length_append, List.length_cons, List.length_singleton] at hn
    rw [nesting] at hdepth
    have hitems := elements_writeItems (item :: more) (List.cons_ne_nil _ _) hplain n (depth - 1) rest
      (by omega) (by omega)
    have hvalue := value_array (by omega) (writeItems_eq_cons (hplain item List.mem_cons_self) more) hitems
    simpa [write] using hvalue
  | .object [], h, n + 1, depth, rest, hn, hdepth, hrest => by
    have hdeep : ¬ depth ≤ 1 := by
      rw [nesting, membersNesting] at hdepth
      omega
    simp [write, writeMembers, Parser.value, Parser.skipSpace, Parser.isSpace, hdeep, ofMembers]
  | .object ((k, v) :: more), h, n + 1, depth, rest, hn, hdepth, hrest => by
    obtain ⟨hordered, hplain⟩ : InKeyOrder ((k, v) :: more) ∧ ∀ m ∈ (k, v) :: more, m.2.IsPlain := by
      cases h with
      | object _ ordered plain => exact ⟨ordered, plain⟩
    rw [write, List.length_append, List.length_cons, List.length_singleton] at hn
    rw [nesting] at hdepth
    have hmembers := members_writeMembers ((k, v) :: more) (List.cons_ne_nil _ _) hplain n (depth - 1) rest
      (by omega) (by omega)
    have hvalue := value_object (by omega) hordered (writeMembers_eq_cons k v more) hmembers
    simpa [write] using hvalue

theorem elements_writeItems : (items : List Json) → items ≠ [] → (∀ item ∈ items, item.IsPlain) →
    ∀ (n depth : Nat) (rest : List Char), 2 * (writeItems items).length + 1 ≤ n → itemsNesting items < depth →
    Parser.elements n depth (writeItems items ++ ']' :: rest) = some (items, rest)
  | [], h, _, _, _, _, _, _ => absurd rfl h
  | _ :: _, _, _, 0, _, _, hn, _ => absurd hn (Nat.not_succ_le_zero _)
  | [item], _, h, n + 1, depth, rest, hn, hdepth => by
    rw [writeItems] at hn
    rw [itemsNesting, itemsNesting] at hdepth
    have hitem := value_write item (h item List.mem_cons_self) n depth (']' :: rest) (by omega) (by omega)
      (by simp [Parser.EndsNumber])
    simp [writeItems, Parser.elements, hitem, Parser.skipSpace, Parser.isSpace]
  | item :: next :: more, _, h, n + 1, depth, rest, hn, hdepth => by
    rw [writeItems_cons_cons, List.length_append, List.length_cons] at hn
    rw [itemsNesting] at hdepth
    have hitem := value_write item (h item List.mem_cons_self) n depth
      (',' :: (writeItems (next :: more) ++ ']' :: rest)) (by omega) (by omega) (by simp [Parser.EndsNumber])
    have hmore := elements_writeItems (next :: more) (List.cons_ne_nil _ _)
      (fun i hi => h i (List.mem_cons_of_mem _ hi)) n depth rest (by omega) (by omega)
    simp [writeItems, Parser.elements, hitem, hmore, Parser.skipSpace, Parser.isSpace]

theorem members_writeMembers : (members : List (String × Json)) → members ≠ [] →
    (∀ member ∈ members, member.2.IsPlain) →
    ∀ (n depth : Nat) (rest : List Char), 2 * (writeMembers members).length + 1 ≤ n → membersNesting members < depth →
    Parser.members n depth (writeMembers members ++ '}' :: rest) = some (members, rest)
  | [], h, _, _, _, _, _, _ => absurd rfl h
  | _ :: _, _, _, 0, _, _, hn, _ => absurd hn (Nat.not_succ_le_zero _)
  | [(k, v)], _, h, n + 1, depth, rest, hn, hdepth => by
    rw [writeMembers, List.length_append, List.length_cons] at hn
    rw [membersNesting, membersNesting] at hdepth
    have hvalue := value_write v (h (k, v) List.mem_cons_self) n depth ('}' :: rest) (by omega) (by omega)
      (by simp [Parser.EndsNumber])
    have hkey := Parser.string_flatMap k (':' :: (v.write ++ '}' :: rest))
    simp [writeMembers, quote, Parser.members, hkey, hvalue, Parser.skipSpace, Parser.isSpace]
  | (k, v) :: next :: more, _, h, n + 1, depth, rest, hn, hdepth => by
    rw [writeMembers_cons_cons, List.length_append, List.length_append, List.length_cons, List.length_cons] at hn
    rw [membersNesting] at hdepth
    have hvalue := value_write v (h (k, v) List.mem_cons_self) n depth
      (',' :: (writeMembers (next :: more) ++ '}' :: rest)) (by omega) (by omega) (by simp [Parser.EndsNumber])
    have hmore := members_writeMembers (next :: more) (List.cons_ne_nil _ _)
      (fun m hm => h m (List.mem_cons_of_mem _ hm)) n depth rest (by omega) (by omega)
    have hkey := Parser.string_flatMap k (':' :: (v.write ++ ',' :: (writeMembers (next :: more) ++ '}' :: rest)))
    simp [writeMembers, quote, Parser.members, hkey, hvalue, hmore, Parser.skipSpace, Parser.isSpace]

end

mutual

/-- Each level has a bracket of its own. -/
theorem nesting_le_length : (v : Json) → v.nesting ≤ v.write.length
  | .null | .bool _ | .number _ | .string _ => Nat.zero_le _
  | .array items => by
    have hitems := itemsNesting_le_length items
    rw [nesting, write, List.length_append, List.length_cons]
    omega
  | .object members => by
    have hmembers := membersNesting_le_length members
    rw [nesting, write, List.length_append, List.length_cons]
    omega

theorem itemsNesting_le_length : (items : List Json) → itemsNesting items ≤ (writeItems items).length
  | [] => Nat.zero_le _
  | [item] => by
    have hitem := nesting_le_length item
    rw [itemsNesting, itemsNesting, writeItems]
    omega
  | item :: next :: more => by
    have hitem := nesting_le_length item
    have hmore := itemsNesting_le_length (next :: more)
    rw [itemsNesting, writeItems_cons_cons, List.length_append, List.length_cons]
    omega

theorem membersNesting_le_length :
    (members : List (String × Json)) → membersNesting members ≤ (writeMembers members).length
  | [] => Nat.zero_le _
  | [(k, v)] => by
    have hvalue := nesting_le_length v
    rw [membersNesting, membersNesting, writeMembers, List.length_append, List.length_cons]
    omega
  | (k, v) :: next :: more => by
    have hvalue := nesting_le_length v
    have hmore := membersNesting_le_length (next :: more)
    rw [membersNesting, writeMembers_cons_cons, List.length_append, List.length_append, List.length_cons,
      List.length_cons]
    omega

end

/-- The value a whole text holds, with a bound on how deep it nests. -/
def readWithin? (depth : Nat) (cs : List Char) : Option Json := do
  let (v, rest) ← Parser.value (2 * cs.length + 2) depth cs
  if (Parser.skipSpace rest).isEmpty then some v else none

theorem parseChars?_eq (cs : List Char) : parseChars? cs = readWithin? 128 cs := rfl

/-- The value a whole text holds, however deep it nests. -/
def read? (cs : List Char) : Option Json := readWithin? (cs.length + 1) cs

variable {v : Json} {depth : Nat}

theorem readWithin?_write (h : v.IsPlain) (hdepth : v.nesting < depth) : readWithin? depth v.write = some v := by
  have hread := value_write v h (2 * v.write.length + 2) depth [] (by omega) hdepth (by simp [Parser.EndsNumber])
  rw [List.append_nil] at hread
  rw [readWithin?, hread]
  rfl

theorem read?_write (h : v.IsPlain) : read? v.write = some v :=
  readWithin?_write h (Nat.lt_succ_of_le (nesting_le_length v))

theorem parseChars?_write (h : v.IsPlain) (hdepth : v.nesting < 128) : parseChars? v.write = some v := by
  rw [parseChars?_eq]
  exact readWithin?_write h hdepth

section Objects

variable {members : List (String × Json)}

theorem isPlain_ofMembers (h : ∀ member ∈ members, member.2.IsPlain) : (ofMembers members).IsPlain := by
  obtain ⟨sorted, heq, hordered, hall⟩ := ofMembers_eq_object members
  rw [heq]
  exact .object sorted hordered fun member hmember => h member (hall member hmember)

theorem membersNesting_le {n : Nat} (h : ∀ member ∈ members, member.2.nesting ≤ n) : membersNesting members ≤ n := by
  induction members with
  | nil => exact Nat.zero_le n
  | cons member rest ih =>
    rw [membersNesting]
    apply Nat.max_le_of_le_of_le
    · exact h member List.mem_cons_self
    · exact ih fun other hother => h other (List.mem_cons_of_mem _ hother)

theorem nesting_ofMembers_le {n : Nat} (h : ∀ member ∈ members, member.2.nesting ≤ n) :
    (ofMembers members).nesting ≤ n + 1 := by
  obtain ⟨sorted, heq, -, hall⟩ := ofMembers_eq_object members
  rw [heq, nesting]
  exact Nat.succ_le_succ (membersNesting_le fun member hmember => h member (hall member hmember))

end Objects

end Values

end BatchExport.Json
