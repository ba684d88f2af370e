import Mathlib.Tactic

/-!
# The proleptic Gregorian calendar

Days are counted by the leap rule: `dayNumber year month day` adds up the years before the
year, the months before the month and the days before the day, from the first of January of
year 0.

The usual way back (`civil`) counts from the first of March instead, so that a leap day is the
last of its year, and finds the year within a cycle of 400 years and the month within a year by
division.  `civil_spec` says that it inverts the count.
-/

namespace Calendar

/-! ## Counting days -/

def isLeap (year : ℕ) : Bool := year % 4 == 0 && (year % 100 != 0 || year % 400 == 0)

def daysInYear (year : ℕ) : ℕ := if isLeap year then 366 else 365

/-- Months are numbered from 1. -/
def daysInMonth (year : ℕ) : ℕ → ℕ
  | 2 => if isLeap year then 29 else 28
  | 4 | 6 | 9 | 11 => 30
  | _ => 31

/-- The days of the years before a year. -/
def daysBeforeYear : ℕ → ℕ
  | 0 => 0
  | year + 1 => daysBeforeYear year + daysInYear year

/-- The days of the first `n` months of a year. -/
def daysOfMonths (year : ℕ) : ℕ → ℕ
  | 0 => 0
  | n + 1 => daysOfMonths year n + daysInMonth year (n + 1)

/-- The days before a date, of months and days that are numbered from 1. -/
def dayNumber (year month day : ℕ) : ℕ :=
  daysBeforeYear year + daysOfMonths year (month - 1) + (day - 1)

/-- The days from the first of March of year 0 to that of a year. -/
def marchStart (year : ℕ) : ℕ := 365 * year + year / 4 - year / 100 + year / 400

theorem isLeap_iff {year : ℕ} :
    isLeap year = true ↔ 4 ∣ year ∧ (¬100 ∣ year ∨ 400 ∣ year) := by
  simp [isLeap, Nat.dvd_iff_mod_eq_zero]

theorem daysInYear_eq (year : ℕ) :
    daysInYear year + (if 100 ∣ year then 1 else 0) =
      365 + (if 4 ∣ year then 1 else 0) + (if 400 ∣ year then 1 else 0) := by
  have h100 : 400 ∣ year → 100 ∣ year := Dvd.dvd.trans (by decide)
  have h4 : 100 ∣ year → 4 ∣ year := Dvd.dvd.trans (by decide)
  unfold daysInYear
  split_ifs with hleap <;> rw [isLeap_iff] at hleap <;> first | rfl | tauto

theorem marchStart_succ (year : ℕ) :
    marchStart (year + 1) = marchStart year + daysInYear (year + 1) := by
  have hdays := daysInYear_eq (year + 1)
  have hcentury : year / 100 ≤ 365 * year := le_trans (Nat.div_le_self _ _) (by omega)
  have hone : (if 100 ∣ year + 1 then 1 else 0) ≤ 1 := by split <;> decide
  unfold marchStart
  rw [Nat.succ_div, Nat.succ_div, Nat.succ_div]
  omega

/-- The leap days of the years up to one, in closed form. -/
theorem daysBeforeYear_succ (year : ℕ) : daysBeforeYear (year + 1) = marchStart year + 366 := by
  induction year with
  | zero => rfl
  | succ year ih =>
      rw [daysBeforeYear, ih, marchStart_succ]
      omega

/-! ## Months from March -/

/-- The days of a year before a month, both from March. -/
def monthStart (n : ℕ) : ℕ := (153 * n + 2) / 5

/-- The number of a month that is counted from March. -/
def monthOf (n : ℕ) : ℕ := if n < 10 then n + 3 else n - 9

/-- The year of a month of a year that is counted from March. -/
def yearOf (year n : ℕ) : ℕ := if monthOf n ≤ 2 then year + 1 else year

theorem monthOf_bounds {n : ℕ} (hn : n ≤ 11) : 1 ≤ monthOf n ∧ monthOf n ≤ 12 := by
  unfold monthOf
  split_ifs <;> omega

/-- The first of January is in the year that follows. -/
theorem dayNumber_march (year : ℕ) {n day : ℕ} (hn : n ≤ 11) (hday : 1 ≤ day) :
    dayNumber (yearOf year n) (monthOf n) day = marchStart year + monthStart n + day + 59 := by
  have hyear : daysBeforeYear year + daysInYear year = marchStart year + 366 :=
    daysBeforeYear_succ year
  have hnext := daysBeforeYear_succ year
  by_cases hleap : isLeap year = true
  · have hdays : daysInYear year = 366 := if_pos hleap
    interval_cases n <;>
      simp [dayNumber, yearOf, monthOf, monthStart, daysOfMonths, daysInMonth, hleap] <;> omega
  · have hdays : daysInYear year = 365 := if_neg hleap
    interval_cases n <;>
      simp [dayNumber, yearOf, monthOf, monthStart, daysOfMonths, daysInMonth, hleap] <;> omega

/-- A day of a year that is counted from March falls in one of its months. -/
theorem month_of_day {year day : ℕ} (hday : day ≤ 365)
    (hleap : day = 365 → isLeap (year + 1) = true) :
    (5 * day + 2) / 153 ≤ 11 ∧ monthStart ((5 * day + 2) / 153) ≤ day ∧
      day - monthStart ((5 * day + 2) / 153) + 1 ≤
        daysInMonth (yearOf year ((5 * day + 2) / 153)) (monthOf ((5 * day + 2) / 153)) := by
  have hn : (5 * day + 2) / 153 ≤ 11 := by omega
  have hstart : monthStart ((5 * day + 2) / 153) ≤ day := by
    unfold monthStart
    omega
  refine ⟨hn, hstart, ?_⟩
  generalize hmonth : (5 * day + 2) / 153 = n at *
  by_cases hlast : n = 11
  · subst hlast
    have hyear : daysInMonth (yearOf year 11) (monthOf 11) =
        if isLeap (year + 1) then 29 else 28 := rfl
    have hstart11 : monthStart 11 = 337 := rfl
    rw [hyear, hstart11]
    split
    · omega
    · next hno =>
        have hne : day ≠ 365 := fun h => hno (hleap h)
        omega
  · interval_cases n <;> simp_all [monthStart, monthOf, daysInMonth] <;> omega

/-! ## Years of a cycle -/

/-- The year of a day of a cycle of 400 years, both counted from March. -/
def yearOfEra (day : ℕ) : ℕ := (day - day / 1460 + day / 36524 - day / 146096) / 365

/-- The last day of a year of a cycle.  The last year ends with the cycle. -/
def lastDay (year : ℕ) : ℕ := if year = 399 then 146096 else marchStart (year + 1) - 1

theorem yearOfEra_mono {a b : ℕ} (hab : a ≤ b) (hb : b < 146097) :
    yearOfEra a ≤ yearOfEra b := by
  refine Nat.div_le_div_right ?_
  omega

/-- The formula is right at both ends of each year. -/
theorem yearOfEra_ends : ∀ year < 400,
    yearOfEra (marchStart year) = year ∧ yearOfEra (lastDay year) = year := by
  decide +kernel

theorem lastDay_lt : ∀ year < 400, marchStart year ≤ lastDay year ∧ lastDay year < 146097 := by
  decide +kernel

/-- So it is right within, since it grows with the day. -/
theorem yearOfEra_spec {day : ℕ} (h : day < 146097) :
    yearOfEra day < 400 ∧ marchStart (yearOfEra day) ≤ day ∧ day ≤ lastDay (yearOfEra day) := by
  have hlt : yearOfEra day < 400 := by
    have hle : yearOfEra day ≤ yearOfEra 146096 := yearOfEra_mono (by omega) (by decide)
    exact lt_of_le_of_lt hle (by decide)
  refine ⟨hlt, ?_, ?_⟩
  · by_contra hstart
    obtain ⟨year, hyear⟩ : ∃ year, yearOfEra day = year + 1 := by
      refine Nat.exists_eq_succ_of_ne_zero fun hzero => hstart ?_
      rw [hzero]
      exact Nat.zero_le day
    have hlast : lastDay year = marchStart (year + 1) - 1 := if_neg (by omega)
    have hle : day ≤ lastDay year := by
      rw [hlast, ← hyear]
      omega
    have hmono := yearOfEra_mono hle (lastDay_lt year (by omega)).2
    rw [(yearOfEra_ends year (by omega)).2] at hmono
    omega
  · by_contra hend
    have hne : yearOfEra day ≠ 399 := by
      intro heq
      rw [heq] at hend
      exact hend (Nat.le_of_lt_succ h)
    have hlast : lastDay (yearOfEra day) = marchStart (yearOfEra day + 1) - 1 := if_neg hne
    have hmono := yearOfEra_mono (show marchStart (yearOfEra day + 1) ≤ day by omega) h
    rw [(yearOfEra_ends (yearOfEra day + 1) (by omega)).1] at hmono
    omega

/-- Within a cycle the fourth century adds nothing. -/
theorem marchStart_of_lt {year : ℕ} (h : year < 400) :
    marchStart year = 365 * year + year / 4 - year / 100 := by
  unfold marchStart
  omega

/-- Only a leap year has a day 366. -/
theorem lastDay_le : ∀ year < 400, lastDay year ≤ marchStart year + 365 ∧
    (lastDay year = marchStart year + 365 → isLeap (year + 1) = true) := by
  decide +kernel

theorem isLeap_add_era (year era : ℕ) : isLeap (year + era * 400) = isLeap year := by
  have h4 : (year + era * 400) % 4 = year % 4 := by omega
  have h100 : (year + era * 400) % 100 = year % 100 := by omega
  have h400 : (year + era * 400) % 400 = year % 400 := by omega
  rw [isLeap, isLeap, h4, h100, h400]

theorem marchStart_add_era (year era : ℕ) :
    marchStart (year + era * 400) = marchStart year + era * 146097 := by
  have hcentury : year / 100 ≤ 365 * year := le_trans (Nat.div_le_self _ _) (by omega)
  have h4 : (year + era * 400) / 4 = year / 4 + era * 100 := by omega
  have h100 : (year + era * 400) / 100 = year / 100 + era * 4 := by omega
  have h400 : (year + era * 400) / 400 = year / 400 + era := by omega
  unfold marchStart
  omega

/-! ## Dates -/

structure Date where
  year : ℕ
  month : ℕ
  day : ℕ
  deriving DecidableEq, Repr

/-- The date of the day `z` days after the first of March of year 0. -/
def civil (z : ℕ) : Date :=
  let era := z / 146097
  let doe := z % 146097
  let yoe := yearOfEra doe
  let y := yoe + era * 400
  let doy := doe - (365 * yoe + yoe / 4 - yoe / 100)
  let mp := (5 * doy + 2) / 153
  { year := yearOf y mp, month := monthOf mp, day := doy - (153 * mp + 2) / 5 + 1 }

/-- **The date is one of the calendar, and as many days from the start of it.** -/
theorem civil_spec (z : ℕ) :
    1 ≤ (civil z).month ∧ (civil z).month ≤ 12 ∧ 1 ≤ (civil z).day ∧
      (civil z).day ≤ daysInMonth (civil z).year (civil z).month ∧
      dayNumber (civil z).year (civil z).month (civil z).day = z + 60 := by
  have hdoe : z % 146097 < 146097 := Nat.mod_lt _ (by decide)
  obtain ⟨hyoe, hstart, hend⟩ := yearOfEra_spec hdoe
  obtain ⟨hlast, hleap⟩ := lastDay_le (yearOfEra (z % 146097)) hyoe
  have hera := marchStart_add_era (yearOfEra (z % 146097)) (z / 146097)
  have hyear := isLeap_add_era (yearOfEra (z % 146097) + 1) (z / 146097)
  simp only [civil, ← marchStart_of_lt hyoe]
  generalize yearOfEra (z % 146097) = yoe at *
  have hdoy : z % 146097 - marchStart yoe ≤ 365 := by omega
  have hleapDay : z % 146097 - marchStart yoe = 365 →
      isLeap (yoe + z / 146097 * 400 + 1) = true := by
    intro heq
    rw [Nat.add_right_comm, hyear]
    exact hleap (by omega)
  obtain ⟨hmp, hmonth, hday⟩ := month_of_day hdoy hleapDay
  generalize (5 * (z % 146097 - marchStart yoe) + 2) / 153 = mp at *
  have hnumber := dayNumber_march (yoe + z / 146097 * 400) hmp
    (Nat.le_add_left 1 (z % 146097 - marchStart yoe - monthStart mp))
  have hsplit := Nat.div_add_mod z 146097
  exact ⟨(monthOf_bounds hmp).1, (monthOf_bounds hmp).2, Nat.le_add_left _ _, hday,
    hnumber.trans (by omega)⟩

end Calendar
