import Cachic.Lib.Calendar
import Cachic.Lib.Text

/-!
# The timestamps of the access log

`clfTimestamp` is the source's arithmetic on `i64`, every operation checked: `none` stands for
one that overflows, or for a month that is not in the table.  `clfTimestamp_eq` says that it
never does, and that the fields are those of `Calendar.civil`.
-/

namespace Cachic

open Calendar CharText

/-- A value of type `i64`, if it is one. -/
def i64 (x : ℤ) : Option ℤ := if -2 ^ 63 ≤ x ∧ x < 2 ^ 63 then some x else none

def months : List String :=
  ["Jan", "Feb", "Mar", "Apr", "May", "Jun", "Jul", "Aug", "Sep", "Oct", "Nov", "Dec"]

/-- A number as `{:0width}` prints it. -/
def zeroPadded (width : ℕ) (x : ℤ) : List Char :=
  if x < 0 then '-' :: (decimal x.natAbs).leftpad (width - 1) '0'
  else (decimal x.natAbs).leftpad width '0'

/-- The fields in their places. -/
def clfText (day : ℤ) (month : String) (year : ℤ) (hour minute second : ℕ) : String :=
  String.ofList (zeroPadded 2 day ++ ('/' :: (month.toList ++ ('/' :: (zeroPadded 4 year ++
    (':' :: (zeroPadded 2 hour ++ (':' :: (zeroPadded 2 minute ++ (':' :: (zeroPadded 2 second ++
      " +0000".toList)))))))))))

/-- Format a Unix timestamp the way Common Log Format expects. -/
def clfTimestamp (unixSeconds : ℕ) : Option String := do
  let days := unixSeconds / 86400
  let secsOfDay := unixSeconds % 86400
  let hour := secsOfDay / 3600
  let minute := secsOfDay % 3600 / 60
  let second := secsOfDay % 60
  let z ← i64 ((← i64 days) + 719468)
  let era := z / 146097
  let doe := z % 146097
  let yoe := (← i64 ((← i64 ((← i64 (doe - doe.tdiv 1460)) + doe.tdiv 36524)) -
    doe.tdiv 146096)).tdiv 365
  let y ← i64 (yoe + (← i64 (era * 400)))
  let doy ← i64 (doe - (← i64 ((← i64 ((← i64 (365 * yoe)) + yoe.tdiv 4)) - yoe.tdiv 100)))
  let mp := (← i64 ((← i64 (5 * doy)) + 2)).tdiv 153
  let d ← i64 ((← i64 (doy - (← i64 ((← i64 (153 * mp)) + 2)).tdiv 5)) + 1)
  let m ← i64 (if mp < 10 then mp + 3 else mp - 9)
  let year ← i64 (if m ≤ 2 then y + 1 else y)
  let month ← months[((← i64 (m - 1)) % 2 ^ 64).toNat]?
  return clfText d month year hour minute second

section Checked

variable {β : Type} {x : ℤ} {n : ℕ} {next : ℤ → Option β} {result : Option β}

/-- One checked operation whose exact result is a natural number below `2 ^ 63`. -/
theorem bind_i64 (hx : x = n) (hn : n < 2 ^ 63) (hnext : next n = result) :
    (i64 x >>= next) = result := by
  have hcheck : i64 x = some (n : ℤ) := by
    rw [i64, if_pos (by omega), hx]
  rw [hcheck]
  exact hnext

/-- Division of what is not negative. -/
theorem tdiv_ofNat (a b : ℕ) [b.AtLeastTwo] :
    (a : ℤ).tdiv (OfNat.ofNat b) = ((a / OfNat.ofNat b : ℕ) : ℤ) :=
  (Int.ofNat_tdiv a (OfNat.ofNat b)).symm

variable {doe yoe doy mp : ℕ}

/-- The days of the cycle without its leap days. -/
theorem bind_commonDays (hdoe : doe < 146097)
    (hnext : next ((doe - doe / 1460 + doe / 36524 - doe / 146096 : ℕ)) = result) :
    (do
      next (← i64 ((← i64 ((← i64 ((doe : ℤ) - (doe : ℤ).tdiv 1460)) +
        (doe : ℤ).tdiv 36524)) - (doe : ℤ).tdiv 146096))) = result := by
  refine bind_i64 (n := doe - doe / 1460) (by rw [tdiv_ofNat]; omega) (by omega) ?_
  refine bind_i64 (n := doe - doe / 1460 + doe / 36524) (by rw [tdiv_ofNat]; omega) (by omega) ?_
  exact bind_i64 (by rw [tdiv_ofNat]; omega) (by omega) hnext

/-- The day of the year that starts in March. -/
theorem bind_dayOfYear (hyoe : yoe < 400) (hdoe : doe < 146097)
    (hstart : 365 * yoe + yoe / 4 - yoe / 100 ≤ doe)
    (hnext : next ((doe - (365 * yoe + yoe / 4 - yoe / 100) : ℕ)) = result) :
    (do
      let doy ← i64 ((doe : ℤ) - (← i64 ((← i64 ((← i64 (365 * (yoe : ℤ))) + (yoe : ℤ).tdiv 4)) -
        (yoe : ℤ).tdiv 100)))
      next doy) = result := by
  refine bind_i64 (n := 365 * yoe) (by omega) (by omega) ?_
  refine bind_i64 (n := 365 * yoe + yoe / 4) (by rw [tdiv_ofNat]; omega) (by omega) ?_
  refine bind_i64 (n := 365 * yoe + yoe / 4 - yoe / 100) (by rw [tdiv_ofNat]; omega) (by omega) ?_
  exact bind_i64 (by omega) (by omega) hnext

/-- The day of the month. -/
theorem bind_dayOfMonth (hmp : mp ≤ 11) (hdoy : doy ≤ 365) (hstart : (153 * mp + 2) / 5 ≤ doy)
    (hnext : next ((doy - (153 * mp + 2) / 5 + 1 : ℕ)) = result) :
    (do
      let d ← i64 ((← i64 ((doy : ℤ) - (← i64 ((← i64 (153 * (mp : ℤ))) + 2)).tdiv 5)) + 1)
      next d) = result := by
  refine bind_i64 (n := 153 * mp) (by omega) (by omega) ?_
  refine bind_i64 (n := 153 * mp + 2) (by omega) (by omega) ?_
  refine bind_i64 (n := doy - (153 * mp + 2) / 5) (by rw [tdiv_ofNat]; omega) (by omega) ?_
  exact bind_i64 (by omega) (by omega) hnext

end Checked

/-- Nothing overflows, and the fields are those of the date. -/
theorem clfTimestamp_eq {t : ℕ} (h : t < 2 ^ 64) :
    clfTimestamp t =
      (months[(civil (t / 86400 + 719468)).month - 1]?).map fun month =>
        clfText (civil (t / 86400 + 719468)).day month (civil (t / 86400 + 719468)).year
          (t % 86400 / 3600) (t % 86400 % 3600 / 60) (t % 86400 % 60) := by
  have hz : t / 86400 + 719468 < 2 ^ 49 := by omega
  unfold clfTimestamp
  refine bind_i64 (n := t / 86400) rfl (by omega) ?_
  refine bind_i64 (n := t / 86400 + 719468) (by omega) (by omega) ?_
  generalize t / 86400 + 719468 = z at *
  have hera : (z : ℤ) / 146097 = ((z / 146097 : ℕ) : ℤ) := by omega
  have hdoe : (z : ℤ) % 146097 = ((z % 146097 : ℕ) : ℤ) := by omega
  have hlt : z % 146097 < 146097 := Nat.mod_lt _ (by decide)
  obtain ⟨hyoe, hstart, hend⟩ := yearOfEra_spec hlt
  obtain ⟨hlast, -⟩ := lastDay_le _ hyoe
  simp only [civil, hera, hdoe]
  generalize z % 146097 = doe at *
  refine bind_commonDays hlt ?_
  have hyear : (((doe - doe / 1460 + doe / 36524 - doe / 146096 : ℕ) : ℤ)).tdiv 365 =
      ((yearOfEra doe : ℕ) : ℤ) := tdiv_ofNat _ _
  simp only [hyear]
  generalize yearOfEra doe = yoe at *
  rw [marchStart_of_lt hyoe] at hstart hlast
  refine bind_i64 (n := z / 146097 * 400) (by omega) (by omega) ?_
  refine bind_i64 (n := yoe + z / 146097 * 400) (by omega) (by omega) ?_
  refine bind_dayOfYear hyoe hlt hstart ?_
  have hdoy : doe - (365 * yoe + yoe / 4 - yoe / 100) ≤ 365 := by omega
  generalize doe - (365 * yoe + yoe / 4 - yoe / 100) = doy at *
  refine bind_i64 (n := 5 * doy) (by omega) (by omega) ?_
  refine bind_i64 (n := 5 * doy + 2) (by omega) (by omega) ?_
  have hmonth : ((5 * doy + 2 : ℕ) : ℤ).tdiv 153 = (((5 * doy + 2) / 153 : ℕ) : ℤ) :=
    tdiv_ofNat _ _
  simp only [hmonth]
  obtain ⟨hmp, hday⟩ : (5 * doy + 2) / 153 ≤ 11 ∧ (153 * ((5 * doy + 2) / 153) + 2) / 5 ≤ doy := by
    omega
  generalize (5 * doy + 2) / 153 = mp at *
  refine bind_dayOfMonth hmp hdoy hday ?_
  have hbounds := monthOf_bounds hmp
  refine bind_i64 (n := monthOf mp) (by unfold monthOf; split_ifs <;> omega) (by omega) ?_
  refine bind_i64 (n := yearOf (yoe + z / 146097 * 400) mp)
    (by unfold yearOf; split_ifs <;> omega) (by unfold yearOf; split_ifs <;> omega) ?_
  refine bind_i64 (n := monthOf mp - 1) (by omega) (by omega) ?_
  have hindex : (((monthOf mp - 1 : ℕ) : ℤ) % 2 ^ 64).toNat = monthOf mp - 1 := by omega
  rw [hindex]
  cases months[monthOf mp - 1]? with
  | none => rfl
  | some month => rfl

theorem dayNumber_epoch : dayNumber 1970 1 1 = 719528 := by
  rw [dayNumber, daysBeforeYear_succ 1969]
  rfl

/-- **The dates of the access log are right.**  For every Unix time of 64 bits nothing overflows
and a text is printed.  Its fields are a date of the calendar as many days from the first of
January 1970 as have passed, and the time of the day. -/
theorem clf_timestamp_right (t : ℕ) (h : t < 2 ^ 64) :
    ∃ (year month day hour minute second : ℕ) (name : String),
      clfTimestamp t = some (clfText day name year hour minute second) ∧
      months[month - 1]? = some name ∧ 1 ≤ month ∧ month ≤ 12 ∧
      1 ≤ day ∧ day ≤ daysInMonth year month ∧
      dayNumber year month day = dayNumber 1970 1 1 + t / 86400 ∧
      3600 * hour + 60 * minute + second = t % 86400 ∧ hour < 24 ∧ minute < 60 ∧ second < 60 := by
  obtain ⟨hlow, hhigh, hday, hlast, hnumber⟩ := civil_spec (t / 86400 + 719468)
  have hindex : (civil (t / 86400 + 719468)).month - 1 < months.length := by
    show _ < 12
    omega
  refine ⟨_, _, _, t % 86400 / 3600, t % 86400 % 3600 / 60, t % 86400 % 60,
    months[(civil (t / 86400 + 719468)).month - 1], ?_,
    List.getElem?_eq_getElem hindex, hlow, hhigh, hday, hlast, ?_, ?_, ?_, ?_, ?_⟩
  · rw [clfTimestamp_eq h, List.getElem?_eq_getElem hindex]
    rfl
  · rw [hnumber, dayNumber_epoch]
    omega
  all_goals omega

theorem clf_timestamp_right_leap_day :
    ∃ (year month day hour minute second : ℕ) (name : String),
      clfTimestamp 951782400 = some (clfText day name year hour minute second) ∧
      dayNumber year month day = dayNumber 1970 1 1 + 951782400 / 86400 := by
  obtain ⟨year, month, day, hour, minute, second, name, htext, -, -, -, -, -, hnumber, -⟩ :=
    clf_timestamp_right 951782400 (by decide)
  exact ⟨year, month, day, hour, minute, second, name, htext, hnumber⟩

example : clfTimestamp 951782400 = some "29/Feb/2000:00:00:00 +0000" := by decide +kernel

end Cachic
