import BatchExport.Json.Parser
import BatchExport.Json.Printer

/-! Integers in JSON text. Main statement: an integer of 64 bits is read as it was written, unless what follows belongs
to it. -/
namespace BatchExport.Json

/-- The value of each digit. -/
def decimal (m : Nat) : List Nat := (Nat.toDigits 10 m).filterMap Text.digitValue?

theorem decimal_of_lt {m : Nat} (h : m < 10) : decimal m = [m] := by
  rw [decimal, Nat.toDigits_of_lt_base h]
  revert m
  decide

theorem decimal_of_le {m : Nat} (h : 10 ≤ m) : decimal m = decimal (m / 10) ++ [m % 10] := by
  have hlast : m % 10 < 10 := Nat.mod_lt m (by decide)
  have hdigit : decimal (m % 10) = [m % 10] := decimal_of_lt hlast
  rw [decimal, Nat.toDigits_of_lt_base hlast] at hdigit
  rw [decimal, Nat.toDigits_of_base_le (by decide) h, List.filterMap_append, hdigit, decimal]

/-- Only zero itself starts with a zero. -/
theorem decimal_eq_cons (m : Nat) : ∃ first more, decimal m = first :: more ∧ (0 < m → first ≠ 0) := by
  induction m using Nat.strongRecOn with
  | ind m ih =>
    by_cases h : m < 10
    · exact ⟨m, [], decimal_of_lt h, Nat.ne_of_gt⟩
    · obtain ⟨first, more, hdecimal, hfirst⟩ := ih (m / 10) (by omega)
      refine ⟨first, more ++ [m % 10], ?_, fun _ => hfirst (by omega)⟩
      rw [decimal_of_le (Nat.le_of_not_lt h), hdecimal]
      rfl

namespace Parser

/-- No digits are left out of a number that fits. -/
theorem significand_decimal {m : Nat} (h : m ≤ maxWord) (more : List Nat) :
    significand 0 (decimal m ++ more) = significand m more := by
  induction m using Nat.strongRecOn generalizing more with
  | ind m ih =>
    by_cases hm : m < 10
    · rw [decimal_of_lt hm, List.singleton_append, significand, Nat.zero_mul, Nat.zero_add, if_pos h]
    · have hvalue : m / 10 * 10 + m % 10 = m := by omega
      rw [decimal_of_le (Nat.le_of_not_lt hm), List.append_assoc, List.singleton_append,
        ih (m / 10) (by omega) (by omega), significand, hvalue, if_pos h]

/-- What comes after a number does not belong to it. -/
def EndsNumber (rest : List Char) : Prop :=
  ∀ c ∈ rest.head?, c.isDigit = false ∧ c ≠ '.' ∧ c ≠ 'e' ∧ c ≠ 'E'

theorem EndsNumber.ne_point {rest : List Char} (h : EndsNumber rest) (more : List Char) : rest ≠ '.' :: more := by
  rintro rfl
  exact (h '.' rfl).2.1 rfl

theorem digits_toDigits (m : Nat) {rest : List Char} (h : EndsNumber rest) :
    digits (Nat.toDigits 10 m ++ rest) = (decimal m, rest) := by
  have hdigits : ∀ c ∈ Nat.toDigits 10 m, c.isDigit = true := fun c hc =>
    Nat.isDigit_of_mem_toDigits (by decide) (by decide) hc
  have hrest : rest.takeWhile Char.isDigit = [] ∧ rest.dropWhile Char.isDigit = rest := by
    cases rest with
    | nil => exact ⟨rfl, rfl⟩
    | cons c rest =>
      have hc : c.isDigit = false := (h c rfl).1
      simp [hc]
  rw [digits, List.takeWhile_append_of_pos hdigits, List.dropWhile_append_of_pos hdigits, hrest.1, hrest.2,
    List.append_nil, decimal]

theorem power_of_endsNumber {rest : List Char} (h : EndsNumber rest) : power rest = some (none, rest) := by
  cases rest with
  | nil => rfl
  | cons c rest =>
    obtain ⟨-, -, hlower, hupper⟩ := h c rfl
    simp [power, hlower, hupper]

private theorem not_leading_zero (m : Nat) :
    ((decimal m).isEmpty || ((decimal m).head? == some 0 && (decimal m).length > 1)) = false := by
  by_cases hm : m < 10
  · simp [decimal_of_lt hm]
  · obtain ⟨first, more, hdecimal, hfirst⟩ := decimal_eq_cons m
    have hne : first ≠ 0 := hfirst (by omega)
    simp [hdecimal, hne]

private theorem significand_whole {m : Nat} (h : m ≤ maxWord) : significand 0 (decimal m) = (m, 0) := by
  have hall := significand_decimal h []
  rwa [List.append_nil, significand] at hall

theorem number_negative {m : Nat} {rest : List Char} (hpos : 0 < m) (hm : m ≤ twoTo 63) (hrest : EndsNumber rest) :
    number ('-' :: (Nat.toDigits 10 m ++ rest)) = some (.integer (-(m : Int)), rest) := by
  have hsignificand : significand 0 (decimal m) = (m, 0) := significand_whole (Nat.le_trans hm (by decide))
  rw [number]
  simp only [digits_toDigits m hrest, not_leading_zero, hsignificand, Bool.false_eq_true, if_false]
  split
  · exact absurd rfl (hrest.ne_point _)
  · simp [power_of_endsNumber hrest, hpos, hm]

theorem number_nonnegative {m : Nat} {rest : List Char} (hm : m ≤ maxWord) (hrest : EndsNumber rest) :
    number (Nat.toDigits 10 m ++ rest) = some (.integer m, rest) := by
  have hunsigned : ∀ r, Nat.toDigits 10 m ++ rest = '-' :: r → False := by
    intro r h
    obtain ⟨c, more, hdigits⟩ := List.exists_cons_of_ne_nil (Nat.toDigits_ne_nil (n := m) (b := 10))
    have hc : c.isDigit = true := Nat.isDigit_of_mem_toDigits (by decide) (by decide) (hdigits ▸ List.mem_cons_self)
    rw [hdigits] at h
    cases h
    cases hc
  rw [number]
  · simp only [digits_toDigits m hrest, not_leading_zero, significand_whole hm, Bool.false_eq_true, if_false]
    split
    · exact absurd rfl (hrest.ne_point _)
    · simp [power_of_endsNumber hrest]
  · exact hunsigned

/-- An integer that fits 64 bits, with or without a sign. -/
def FitsWord (n : Int) : Prop := -twoTo 63 ≤ n ∧ n ≤ maxWord

instance (n : Int) : Decidable (FitsWord n) := inferInstanceAs (Decidable (_ ∧ _))

/-- An integer is read as it was written. -/
theorem number_integerText {n : Int} {rest : List Char} (h : FitsWord n) (hrest : EndsNumber rest) :
    number (integerText n ++ rest) = some (.integer n, rest) := by
  obtain ⟨hlow, hhigh⟩ := h
  rw [integerText]
  split
  · have hread := number_negative (m := n.natAbs) (by omega) (by omega) hrest
    rw [List.cons_append, hread]
    congr
    omega
  · have hread := number_nonnegative (m := n.natAbs) (by omega) hrest
    rw [hread]
    congr
    omega

end Parser
end BatchExport.Json
