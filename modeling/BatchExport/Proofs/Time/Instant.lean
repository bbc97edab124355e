import BatchExport.Proofs.Text.Blank
import BatchExport.Proofs.Text.Decimal
import BatchExport.Proofs.Time.Calendar
import BatchExport.Time.Instant

/-! Instants as texts. Main statement: an instant of the years 0 to 9999 outside a leap second is read from its own
text. -/
namespace BatchExport

/-- A reading goes on after a part that is read. -/
theorem goes_on {α β : Type} {part : Option α} {next : α → Option β} {a : α} {b : β} (hpart : part = some a)
    (hnext : next a = some b) : (part >>= next) = some b := by
  rw [hpart]
  exact hnext

namespace Instant

open Text (padded)

section Parts

variable {width n : Nat}

theorem spaced_cons {c : Char} (h : Text.isBlankChar c = false) (rest : List Char) : spaced (c :: rest) = c :: rest := by
  apply Text.trimLeft_eq_self
  rintro _ ⟨⟩
  exact h

theorem isBlankChar_of_isDigit {c : Char} (h : c.isDigit = true) : Text.isBlankChar c = false := by
  have hrange : 48 ≤ c.toNat ∧ c.toNat ≤ 57 := by
    simp only [Char.isDigit, Bool.and_eq_true, decide_eq_true_eq, ge_iff_le, UInt32.le_iff_toNat_le] at h
    exact h
  simp only [Text.isBlankChar, Bool.or_eq_false_iff, Bool.and_eq_false_iff, decide_eq_false_iff_not, beq_eq_false_iff_ne]
  omega

/-- The digits of a number begin with a digit. -/
theorem toList_padded_eq_cons (width n : Nat) : ∃ c more, (padded width n).toList = c :: more ∧ c.isDigit = true := by
  have hne : (padded width n).toList ≠ [] := by
    rw [Text.toList_padded]
    exact List.append_ne_nil_of_right_ne_nil _ Nat.toDigits_ne_nil
  obtain ⟨c, more, hcons⟩ := List.exists_cons_of_ne_nil hne
  exact ⟨c, more, hcons, Text.isDigit_of_mem_padded (hcons ▸ List.mem_cons_self)⟩

theorem spaced_padded (width n : Nat) (rest : List Char) :
    spaced ((padded width n).toList ++ rest) = (padded width n).toList ++ rest := by
  obtain ⟨c, more, hcons, hc⟩ := toList_padded_eq_cons width n
  rw [hcons]
  exact spaced_cons (isBlankChar_of_isDigit hc) _

/-- The digits of a number are taken, and no more. -/
theorem takeNumber_padded (hpos : 0 < width) (h : n < tenTo width) (rest : List Char) :
    takeNumber width ((padded width n).toList ++ rest) = some (n, rest) := by
  have hrun : (((padded width n).toList ++ rest).takeWhile Char.isDigit).take width = (padded width n).toList := by
    rw [List.takeWhile_append_of_pos fun c => Text.isDigit_of_mem_padded, List.take_left' (Text.length_padded hpos h)]
  rw [takeNumber]
  simp only [hrun, Text.natOfDigits?_padded, Option.map_some, List.drop_left]

theorem takePair_padded (h : n < 100) (rest : List Char) : takePair ((padded 2 n).toList ++ rest) = some (n, rest) := by
  rw [takePair, spaced_padded]
  exact takeNumber_padded (by decide) h rest

theorem takeYear_padded (h : n < 10000) (rest : List Char) :
    takeYear ((padded 4 n).toList ++ rest) = some ((n : Int), rest) := by
  have hnumber : takeNumber 4 ((padded 4 n).toList ++ rest) = some (n, rest) := takeNumber_padded (by decide) h rest
  obtain ⟨c, more, hcons, hc⟩ := toList_padded_eq_cons 4 n
  rw [takeYear, spaced_padded]
  rw [hcons, List.cons_append] at hnumber ⊢
  split
  case h_3 =>
    rw [hnumber]
    rfl
  -- A digit is no sign.
  all_goals
    rename_i heq
    rw [(List.cons.inj heq).1] at hc
    cases hc

theorem takeFraction_padded (hpos : 0 < width) (hwidth : width ≤ 9) (h : n < tenTo width) :
    takeFraction ('.' :: ((padded width n).toList ++ ['Z'])) = some (n * tenTo (9 - width), ['Z']) := by
  have hlength := Text.length_padded hpos h
  have hrun : ((padded width n).toList ++ ['Z']).takeWhile Char.isDigit = (padded width n).toList := by
    rw [List.takeWhile_append_of_pos fun c => Text.isDigit_of_mem_padded]
    exact List.append_nil _
  have hkept : (padded width n).toList.take 9 = (padded width n).toList := List.take_of_length_le (by omega)
  rw [takeFraction]
  simp only [hrun, hkept, Text.natOfDigits?_padded, hlength, Option.bind_eq_bind, Option.bind_some, List.drop_left' hlength,
    Option.pure_def]

/-- The groups of digits that are written are enough. -/
theorem takeFraction_fractionText (h : n < 1000000000) :
    takeFraction ((fractionText n).toList ++ ['Z']) = some (n, ['Z']) := by
  have hgroups {width k : Nat} (hpos : 0 < width) (hwidth : width ≤ 9) (hk : k < tenTo width)
      (hn : k * tenTo (9 - width) = n) :
      takeFraction (("." ++ padded width k).toList ++ ['Z']) = some (n, ['Z']) := by
    rw [String.toList_append, ← hn]
    exact takeFraction_padded hpos hwidth hk
  rw [fractionText]
  split
  · subst n
    rfl
  · split
    · apply hgroups (by decide) (by decide)
      · show n / 1000000 < 1000
        omega
      · show n / 1000000 * 1000000 = n
        omega
    · split
      · apply hgroups (by decide) (by decide)
        · show n / 1000 < 1000000
          omega
        · show n / 1000 * 1000 = n
          omega
      · apply hgroups (by decide) (by decide) h
        exact Nat.mul_one n

end Parts

/-- The text of a date and a time of day. -/
def textOf (date : Date) (hour minute second nanos : Nat) : String :=
  padded 4 date.year.toNat ++ "-" ++ padded 2 date.month ++ "-" ++ padded 2 date.day ++ "T" ++ padded 2 hour ++ ":" ++
    padded 2 minute ++ ":" ++ padded 2 second ++ fractionText nanos ++ "Z"

theorem toList_textOf (date : Date) (hour minute second nanos : Nat) :
    (textOf date hour minute second nanos).toList =
      (padded 4 date.year.toNat).toList ++ '-' :: ((padded 2 date.month).toList ++ '-' :: ((padded 2 date.day).toList ++
        'T' :: ((padded 2 hour).toList ++ ':' :: ((padded 2 minute).toList ++ ':' :: ((padded 2 second).toList ++
          ((fractionText nanos).toList ++ ['Z'])))))) := by
  simp [textOf]

theorem parse?_textOf {date : Date} {hour minute second nanos : Nat} (hvalid : date.isValid = true)
    (hfirst : 0 ≤ date.year) (hlast : date.year ≤ 9999) (hhour : hour ≤ 23) (hminute : minute ≤ 59)
    (hsecond : second ≤ 59) (hnanos : nanos < 1000000000) :
    parse? (textOf date hour minute second nanos) =
      some ⟨date.toDays * 86400 + (hour * 3600 + minute * 60 + second : Nat), nanos⟩ := by
  obtain ⟨⟨hmonth, hmonths⟩, hday, hdays⟩ := (Date.isValid_iff date).mp hvalid
  have hlength := Date.daysInMonth_le date.year date.month
  have hyear : ((date.year.toNat : Nat) : Int) = date.year := Int.toNat_of_nonneg hfirst
  have hdash (rest : List Char) : expect '-' (spaced ('-' :: rest)) = some rest := rfl
  have hcolon (rest : List Char) : expect ':' (spaced (':' :: rest)) = some rest := rfl
  have hoffset : takeOffset (spaced ['Z']) = some (0, []) := rfl
  have hrange : yearInRange date.year = true := by
    simp only [yearInRange, Bool.and_eq_true, decide_eq_true_eq]
    omega
  rw [parse?, toList_textOf]
  apply goes_on (takeYear_padded (by omega) _)
  apply goes_on (hdash _)
  apply goes_on (takePair_padded (by omega) _)
  apply goes_on (hdash _)
  apply goes_on (takePair_padded (by omega) _)
  apply goes_on (a := _) rfl
  apply goes_on (takePair_padded (by omega) _)
  apply goes_on (hcolon _)
  apply goes_on (takePair_padded (by omega) _)
  apply goes_on (hcolon _)
  apply goes_on (takePair_padded (by omega) _)
  apply goes_on (takeFraction_fractionText hnanos)
  apply goes_on hoffset
  have hclock : min second 59 = second := Nat.min_eq_left hsecond
  have hleap : second ≠ 60 := by omega
  dsimp only
  rw [hyear, if_neg, hclock, if_neg hleap, Int.sub_zero, Nat.add_zero]
  have hend : (spaced []).isEmpty = true := rfl
  simp only [hend, hvalid, hrange, Bool.not_true, Bool.false_or, Bool.or_eq_true, decide_eq_true_eq]
  omega

/-- It is not within a leap second, and its year has four digits. -/
structure IsOrdinary (t : Instant) : Prop where
  nanos : t.nanos < 1000000000
  first : Date.toDays ⟨0, 1, 1⟩ * 86400 ≤ t.seconds
  last : t.seconds < Date.toDays ⟨10000, 1, 1⟩ * 86400

variable {t : Instant}

theorem IsOrdinary.year (h : t.IsOrdinary) :
    0 ≤ (Date.ofDays (t.seconds / 86400)).year ∧ (Date.ofDays (t.seconds / 86400)).year ≤ 9999 := by
  have hfirst := Date.lt_newYear_iff (t.seconds / 86400) 0
  have hlast := Date.lt_newYear_iff (t.seconds / 86400) 10000
  have hlow := h.first
  have hhigh := h.last
  omega

theorem IsOrdinary.render_eq (h : t.IsOrdinary) :
    t.render = textOf (Date.ofDays (t.seconds / 86400)) ((t.seconds % 86400).toNat / 3600)
      ((t.seconds % 86400).toNat / 60 % 60) ((t.seconds % 86400).toNat % 60) t.nanos := by
  have hyear := h.year
  have hnanos := h.nanos
  have hleap : t.nanos / 1000000000 = 0 := by omega
  have hfraction : t.nanos % 1000000000 = t.nanos := by omega
  simp only [render, textOf, yearText, hleap, hfraction, Nat.add_zero]
  rw [if_pos (by simpa using hyear)]

/-- What is written is read back to the nanosecond. -/
theorem IsOrdinary.parse?_render (h : t.IsOrdinary) : parse? t.render = some t := by
  have hyear := h.year
  have hclock : ((t.seconds % 86400).toNat : Int) = t.seconds % 86400 :=
    Int.toNat_of_nonneg (Int.emod_nonneg _ (by decide))
  rw [h.render_eq, parse?_textOf (Date.isValid_ofDays _) hyear.1 hyear.2 (by omega) (by omega) (by omega) h.nanos,
    Date.toDays_ofDays]
  obtain ⟨seconds, nanos⟩ := t
  congr
  dsimp only at hclock ⊢
  omega

end Instant
end BatchExport
