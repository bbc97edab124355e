import BatchExport.Time.Calendar
import Mathlib.Tactic.IntervalCases

/-! Days and dates. Main statements: every day has a valid date, which leads back to the day, and a valid date lies in a
year exactly if its day lies between the first days of the year and of the next one. -/
namespace BatchExport.Date

section Years

/-- The day of an era, by the full centuries, cycles of four years and years before it, and its place in its year. -/
structure IsPlaced (dayOfEra century cycle year day : Int) : Prop where
  sum : dayOfEra = 36524 * century + 1461 * cycle + 365 * year + day
  centuries : 0 ≤ century ∧ century ≤ 3
  cycles : 0 ≤ cycle ∧ cycle ≤ 24
  years : 0 ≤ year ∧ year ≤ 3
  days : 0 ≤ day ∧ day ≤ 365
  /-- Only a leap year has this day. -/
  leap : day = 365 → year = 3 ∧ (cycle = 24 → century = 3)

theorem exists_isPlaced {dayOfEra : Int} (hfirst : 0 ≤ dayOfEra) (hlast : dayOfEra < 146097) :
    ∃ century cycle year day, IsPlaced dayOfEra century cycle year day := by
  by_cases hend : dayOfEra = 146096
  · -- It would begin a fifth century.
    refine ⟨3, 24, 3, 365, ?_⟩
    constructor <;> omega
  · by_cases hleap : dayOfEra % 36524 % 1461 = 1460
    · -- It would begin a fifth year.
      refine ⟨dayOfEra / 36524, dayOfEra % 36524 / 1461, 3, 365, ?_⟩
      constructor <;> omega
    · refine ⟨dayOfEra / 36524, dayOfEra % 36524 / 1461, dayOfEra % 36524 % 1461 / 365,
        dayOfEra % 36524 % 1461 % 365, ?_⟩
      constructor <;> omega

variable {dayOfEra century cycle year day : Int}

theorem IsPlaced.yearOfEra (h : IsPlaced dayOfEra century cycle year day) :
    (dayOfEra - dayOfEra / 1460 + dayOfEra / 36524 - dayOfEra / 146096) / 365 = 100 * century + 4 * cycle + year := by
  obtain ⟨hsum, hcenturies, hcycles, hyears, hdays, hleap⟩ := h
  by_cases hend : dayOfEra = 146096
  · subst hend
    omega
  · have hcentury : dayOfEra / 36524 = century := by omega
    have hera : dayOfEra / 146096 = 0 := by omega
    have hquarter : dayOfEra / 1460 = 25 * century + cycle ∨ dayOfEra / 1460 = 25 * century + cycle + 1 := by omega
    rw [hcentury, hera]
    obtain hquarter | hquarter := hquarter
    · omega
    · omega

/-- The days before a year that begins in March. -/
def daysBefore (y : Int) : Int := y / 400 * 146097 + (y % 400 * 365 + y % 400 / 4 - y % 400 / 100)

theorem daysBefore_eq (y : Int) : daysBefore y = 365 * y + y / 4 - y / 100 + y / 400 := by
  rw [daysBefore]
  omega

theorem daysBefore_mono {y z : Int} (h : y ≤ z) : daysBefore y + 365 * (z - y) ≤ daysBefore z := by
  have hleap : y / 4 - y / 100 ≤ z / 4 - z / 100 := by omega
  have hera : y / 400 ≤ z / 400 := by omega
  rw [daysBefore_eq, daysBefore_eq]
  omega

theorem isLeapYear_iff (y : Int) : isLeapYear y = true ↔ (y % 4 = 0 ∧ y % 100 ≠ 0) ∨ y % 400 = 0 := by
  simp [isLeapYear]

end Years

section Months

/-- A day of a year that begins in March, by its place in the year. -/
def ofYearDay (y day : Int) : Date :=
  let monthFromMarch := (5 * day + 2) / 153
  let month := if monthFromMarch < 10 then monthFromMarch + 3 else monthFromMarch - 9
  { year := y + (if month ≤ 2 then 1 else 0)
    month := month.toNat
    day := (day - (153 * monthFromMarch + 2) / 5 + 1).toNat }

variable {y day : Int}

theorem isValid_iff (d : Date) : d.isValid = true ↔
    (1 ≤ d.month ∧ d.month ≤ 12) ∧ 1 ≤ d.day ∧ d.day ≤ daysInMonth d.year d.month := by
  simp [isValid, and_assoc]

/-- Only a leap year has a last day of February that the others have not. -/
theorem isValid_ofYearDay (hfirst : 0 ≤ day) (hlast : day ≤ 365) (hleap : day = 365 → isLeapYear (y + 1) = true) :
    (ofYearDay y day).isValid = true := by
  obtain ⟨m, hm⟩ : ∃ m, m = (5 * day + 2) / 153 := ⟨_, rfl⟩
  have hlow : 0 ≤ m := by omega
  have hhigh : m ≤ 11 := by omega
  rw [isValid_iff, ofYearDay]
  simp only [← hm]
  interval_cases m
  case «11» =>
    by_cases hday : day = 365
    · simp [daysInMonth, hday, hleap hday]
    · simp only [daysInMonth]
      split <;> simp <;> omega
  all_goals
    simp [daysInMonth]
    omega

theorem toDays_ofYearDay (hfirst : 0 ≤ day) (hlast : day ≤ 365) :
    (ofYearDay y day).toDays = daysBefore y + day - 719468 := by
  obtain ⟨m, hm⟩ : ∃ m, m = (5 * day + 2) / 153 := ⟨_, rfl⟩
  have hlow : 0 ≤ m := by omega
  have hhigh : m ≤ 11 := by omega
  rw [toDays, ofYearDay, daysBefore]
  simp only [← hm]
  interval_cases m <;> simp <;> omega

/-- The first of January comes after ten months from March. -/
theorem toDays_newYear (y : Int) : toDays ⟨y, 1, 1⟩ = daysBefore (y - 1) + 306 - 719468 := by
  simp only [toDays, daysBefore]
  omega

theorem daysInMonth_le (y : Int) (m : Nat) : daysInMonth y m ≤ 31 := by
  rw [daysInMonth]
  repeat' split
  all_goals decide

/-- January and February belong to the year that began in the March before. -/
theorem toDays_cases {d : Date} (h : d.isValid = true) :
    (∃ dayOfYear, 306 ≤ dayOfYear ∧ dayOfYear ≤ 367 ∧
      d.toDays = daysBefore (d.year - 1) + dayOfYear - 719468) ∨
    ∃ dayOfYear, 0 ≤ dayOfYear ∧ dayOfYear ≤ 305 ∧ d.toDays = daysBefore d.year + dayOfYear - 719468 := by
  obtain ⟨⟨hfirst, hlast⟩, hday, hdays⟩ := (isValid_iff d).mp h
  have hlength := daysInMonth_le d.year d.month
  by_cases hmonth : d.month ≤ 2
  · left
    refine ⟨(153 * (d.month + 9) + 2) / 5 + d.day - 1, by omega, by omega, ?_⟩
    simp only [toDays, daysBefore, if_pos hmonth]
    omega
  · right
    refine ⟨(153 * (d.month - 3) + 2) / 5 + d.day - 1, by omega, by omega, ?_⟩
    simp only [toDays, daysBefore, if_neg hmonth]
    omega

/-- The dates before the first of January of a year are those of earlier years. -/
theorem toDays_lt_newYear_iff {d : Date} (h : d.isValid = true) (y : Int) :
    d.toDays < toDays ⟨y, 1, 1⟩ ↔ d.year < y := by
  rw [toDays_newYear]
  have hgrows := daysBefore_mono (y := d.year - 1) (z := d.year) (by omega)
  rcases lt_or_ge d.year y with hyear | hyear
  · have hbefore := daysBefore_mono (y := d.year) (z := y - 1) (by omega)
    obtain ⟨day, hlow, hhigh, hdays⟩ | ⟨day, hlow, hhigh, hdays⟩ := toDays_cases h
    · omega
    · omega
  · have hbefore := daysBefore_mono (y := y - 1) (z := d.year - 1) (by omega)
    obtain ⟨day, hlow, hhigh, hdays⟩ | ⟨day, hlow, hhigh, hdays⟩ := toDays_cases h
    · omega
    · omega

end Months

theorem ofDays_eq {days century cycle year day : Int}
    (h : IsPlaced ((days + 719468) % 146097) century cycle year day) :
    ofDays days = ofYearDay (100 * century + 4 * cycle + year + (days + 719468) / 146097 * 400) day := by
  have hyear := h.yearOfEra
  obtain ⟨hsum, hcenturies, hcycles, hyears, -, -⟩ := h
  have hquarters : (100 * century + 4 * cycle + year) / 4 = 25 * century + cycle := by omega
  have hcentury : (100 * century + 4 * cycle + year) / 100 = century := by omega
  have hday : (days + 719468) % 146097 -
      (365 * (100 * century + 4 * cycle + year) + (25 * century + cycle) - century) = day := by omega
  simp only [ofDays, hyear, hquarters, hcentury, hday, ofYearDay]

theorem isValid_ofDays (days : Int) : (ofDays days).isValid = true := by
  obtain ⟨century, cycle, year, day, h⟩ :=
    exists_isPlaced (Int.emod_nonneg (days + 719468) (by decide)) (Int.emod_lt_of_pos _ (by decide))
  rw [ofDays_eq h]
  apply isValid_ofYearDay h.days.1 h.days.2
  intro hlast
  obtain ⟨hyear, hcycle⟩ := h.leap hlast
  have hcycles := h.cycles
  have hcenturies := h.centuries
  rw [isLeapYear_iff]
  omega

/-- A day leads to its date and back. -/
theorem toDays_ofDays (days : Int) : (ofDays days).toDays = days := by
  obtain ⟨century, cycle, year, day, h⟩ :=
    exists_isPlaced (Int.emod_nonneg (days + 719468) (by decide)) (Int.emod_lt_of_pos _ (by decide))
  rw [ofDays_eq h, toDays_ofYearDay h.days.1 h.days.2, daysBefore_eq]
  obtain ⟨hsum, hcenturies, hcycles, hyears, -, -⟩ := h
  omega

theorem lt_newYear_iff (days : Int) (y : Int) : days < toDays ⟨y, 1, 1⟩ ↔ (ofDays days).year < y := by
  rw [← toDays_lt_newYear_iff (isValid_ofDays days), toDays_ofDays]

end BatchExport.Date
