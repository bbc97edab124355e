import BatchExport.Decimal.Power
import BatchExport.Text.Decimal

/-! Numbers in decimal digits. Main statement: a number that is padded to a width has that width, and its digits are read
as the number. -/
namespace BatchExport.Text

variable {width n : Nat}

/-- The number with one more digit. -/
def withDigit (n : Nat) (c : Char) : Option Nat := (digitValue? c).map (10 * n + ·)

theorem natOfDigits?_of_ne_nil {cs : List Char} (h : cs ≠ []) : natOfDigits? cs = cs.foldlM withDigit 0 := by
  rw [natOfDigits?, List.isEmpty_eq_false_iff.mpr h]
  rfl

theorem withDigit_digitChar {d : Nat} (h : d < 10) (n : Nat) : withDigit n (Nat.digitChar d) = some (10 * n + d) := by
  have hdigit : ∀ d < 10, digitValue? (Nat.digitChar d) = some d := by decide
  rw [withDigit, hdigit d h]
  rfl

theorem foldlM_toDigits (n : Nat) : (Nat.toDigits 10 n).foldlM withDigit 0 = some n := by
  induction n using Nat.strongRecOn with
  | ind n ih =>
    by_cases h : n < 10
    · rw [Nat.toDigits_of_lt_base h, List.foldlM_cons, withDigit_digitChar h]
      simp
    · have hsmaller := ih (n / 10) (by omega)
      rw [Nat.toDigits_of_base_le (by decide) (by omega), List.foldlM_append, hsmaller]
      have hlast := withDigit_digitChar (Nat.mod_lt n (by decide : 0 < 10)) (n / 10)
      simp only [Option.bind_eq_bind, Option.bind_some, List.foldlM_cons, hlast, List.foldlM_nil, Option.pure_def]
      congr 1
      omega

/-- Leading zeros do not count. -/
theorem foldlM_zeros (k : Nat) (cs : List Char) :
    (List.replicate k '0' ++ cs).foldlM withDigit 0 = cs.foldlM withDigit 0 := by
  induction k with
  | zero => rfl
  | succ k ih =>
    have hzero : withDigit 0 '0' = some 0 := by decide
    rw [List.replicate_succ, List.cons_append, List.foldlM_cons, hzero]
    exact ih

theorem toList_padded (width n : Nat) :
    (padded width n).toList = List.replicate (width - (Nat.toDigits 10 n).length) '0' ++ Nat.toDigits 10 n := by
  rw [padded, String.toList_ofList]

theorem natOfDigits?_padded (width n : Nat) : natOfDigits? (padded width n).toList = some n := by
  rw [toList_padded, natOfDigits?_of_ne_nil, foldlM_zeros, foldlM_toDigits]
  apply List.append_ne_nil_of_right_ne_nil
  exact Nat.toDigits_ne_nil

theorem length_padded (hpos : 0 < width) (h : n < tenTo width) : (padded width n).toList.length = width := by
  have hdigits := (Nat.length_toDigits_le_iff (by decide) hpos).mpr h
  rw [toList_padded, List.length_append, List.length_replicate]
  omega

theorem isDigit_of_mem_padded {c : Char} (h : c ∈ (padded width n).toList) : c.isDigit = true := by
  rw [toList_padded, List.mem_append] at h
  obtain h | h := h
  · obtain ⟨-, rfl⟩ := List.mem_replicate.mp h
    rfl
  · exact Nat.isDigit_of_mem_toDigits (by decide) (by decide) h

end BatchExport.Text
