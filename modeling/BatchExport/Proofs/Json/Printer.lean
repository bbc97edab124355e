import BatchExport.Json.Printer

/-! JSON texts fit on one line. Main statement: no newline is ever written. -/
namespace BatchExport.Json

private theorem newline_not_mem_digits (n : Nat) : '\n' ∉ Nat.toDigits 10 n := by
  intro h
  have hdigit := Nat.isDigit_of_mem_toDigits (by omega) (by omega) h
  revert hdigit
  decide

theorem newline_not_mem_integerText (n : Int) : '\n' ∉ integerText n := by
  rw [integerText]
  split <;> simp [newline_not_mem_digits]

theorem newline_not_mem_realText (x : Binary64) : '\n' ∉ (realText x).toList := by
  have hsign : '\n' ∉ (if x.isNegative then "-" else "").toList := by
    split <;> decide
  have hdigits := newline_not_mem_digits
  have htake (n k : Nat) : '\n' ∉ (Nat.toDigits 10 n).take k := fun h => hdigits n (List.mem_of_mem_take h)
  have hdrop (n k : Nat) : '\n' ∉ (Nat.toDigits 10 n).drop k := fun h => hdigits n (List.mem_of_mem_drop h)
  rw [realText]
  dsimp only
  generalize (if x.isNegative then "-" else "") = sign at hsign
  split
  · decide
  · split
    · simp [hsign]
    · rw [String.toList_append, String.toList_ofList, List.mem_append, not_or]
      refine ⟨hsign, ?_⟩
      split
      · simp [hdigits]
      · split
        · simp [htake, hdrop]
        · split
          · simp [hdigits]
          · simp only [List.mem_append, List.mem_cons, hdigits, htake, false_or, or_false, not_or]
            refine ⟨?_, by decide, ?_⟩
            · split
              · simp
              · simp [-List.drop_one, hdrop]
            · split <;> decide

private theorem hexDigit_ne_newline : ∀ n < 16, Text.hexDigit n ≠ '\n' := by
  decide

theorem newline_not_mem_escapeChar (c : Char) : '\n' ∉ escapeChar c := by
  by_cases hc : c = '\n'
  · rw [hc]
    decide
  · rw [escapeChar]
    iterate 6
      split
      · decide
    split
    · have hhigh := hexDigit_ne_newline (c.toNat / 16) (by omega)
      have hlow := hexDigit_ne_newline (c.toNat % 16) (by omega)
      simp [hhigh.symm, hlow.symm]
    · simpa using Ne.symm hc

theorem newline_not_mem_quote (s : String) : '\n' ∉ quote s := by
  simp [quote, newline_not_mem_escapeChar]

mutual

theorem newline_not_mem_write : (v : Json) → '\n' ∉ v.write
  | .null => by decide
  | .bool true => by decide
  | .bool false => by decide
  | .number (.integer n) => newline_not_mem_integerText n
  | .number (.real x) => newline_not_mem_realText x
  | .string s => newline_not_mem_quote s
  | .array items => by simp [write, newline_not_mem_items items]
  | .object members => by simp [write, newline_not_mem_members members]

theorem newline_not_mem_items : (items : List Json) → '\n' ∉ writeItems items
  | [] => by simp [writeItems]
  | [item] => by simp [writeItems, newline_not_mem_write item]
  | item :: next :: more => by
    simp [writeItems, newline_not_mem_write item, newline_not_mem_items (next :: more)]

theorem newline_not_mem_members : (members : List (String × Json)) → '\n' ∉ writeMembers members
  | [] => by simp [writeMembers]
  | [(k, v)] => by simp [writeMembers, newline_not_mem_quote, newline_not_mem_write v]
  | (k, v) :: next :: more => by
    simp [writeMembers, newline_not_mem_quote, newline_not_mem_write v, newline_not_mem_members (next :: more)]

end

end BatchExport.Json
