import Mathlib.Tactic

/-! # The proleptic Gregorian calendar

Days are counted from 1970-01-01, months from the January of year 0.
-/

namespace CcSwitchServer.Foundations.Calendar

variable (y : ℤ)

/-- Leap years up to and including year `y`, counted from year 1. -/
def leapYears : ℤ := y / 4 - y / 100 + y / 400

def leapDay : ℤ := if y % 4 = 0 ∧ (y % 100 ≠ 0 ∨ y % 400 = 0) then 1 else 0

def yearStart : ℤ := 365 * (y - 1970) + leapYears (y - 1) - 477

/-- Days of the year before the month `m`, where January is 0. From March on, the lengths of the months
repeat 31, 30, 31, 30, 31. -/
def daysBeforeMonth (y m : ℤ) : ℤ :=
  if m < 2 then 31 * m else (153 * (m - 2) + 2) / 5 + 59 + leapDay y

def monthStart (k : ℤ) : ℤ := yearStart (k / 12) + daysBeforeMonth (k / 12) (k % 12)

/-- The mean month has 146097 days in 4800 months, so the estimate is off by one at most. -/
def monthOf (day : ℤ) : ℤ :=
  let k := 23640 + 4800 * day / 146097
  if day < monthStart k then k - 1 else if monthStart (k + 1) ≤ day then k + 1 else k

/-- The first of January 1970 was a Thursday. -/
def daysFromMonday (day : ℤ) : ℤ := (day + 3) % 7

/-! ## Months follow one another -/

theorem leapYears_succ : leapYears (y + 1) = leapYears y + leapDay (y + 1) := by
  unfold leapYears leapDay
  split
  · omega
  · omega

theorem yearStart_succ : yearStart (y + 1) = yearStart y + 365 + leapDay y := by
  have hleap := leapYears_succ (y - 1)
  rw [Int.sub_add_cancel] at hleap
  unfold yearStart
  rw [Int.add_sub_cancel, hleap]
  ring

theorem leapDay_bounds : 0 ≤ leapDay y ∧ leapDay y ≤ 1 := by
  unfold leapDay
  split
  · omega
  · omega

theorem monthStart_succ (k : ℤ) : monthStart k + 28 ≤ monthStart (k + 1) := by
  have hleap := leapDay_bounds (k / 12)
  by_cases hlast : k % 12 = 11
  · have hyear : (k + 1) / 12 = k / 12 + 1 := by omega
    have hmonth : (k + 1) % 12 = 0 := by omega
    have hnext := yearStart_succ (k / 12)
    unfold monthStart daysBeforeMonth
    rw [hyear, hmonth, hlast, hnext, if_neg (by omega), if_pos (by omega)]
    omega
  · have hyear : (k + 1) / 12 = k / 12 := by omega
    have hmonth : (k + 1) % 12 = k % 12 + 1 := by omega
    unfold monthStart daysBeforeMonth
    rw [hyear, hmonth]
    split
    · split
      · omega
      · omega
    · rw [if_neg (by omega)]
      omega

theorem monthStart_succ_le (k : ℤ) : monthStart (k + 1) ≤ monthStart k + 31 := by
  have hleap := leapDay_bounds (k / 12)
  by_cases hlast : k % 12 = 11
  · have hyear : (k + 1) / 12 = k / 12 + 1 := by omega
    have hmonth : (k + 1) % 12 = 0 := by omega
    have hnext := yearStart_succ (k / 12)
    unfold monthStart daysBeforeMonth
    rw [hyear, hmonth, hlast, hnext, if_pos (by omega), if_neg (by omega)]
    omega
  · have hyear : (k + 1) / 12 = k / 12 := by omega
    have hmonth : (k + 1) % 12 = k % 12 + 1 := by omega
    unfold monthStart daysBeforeMonth
    rw [hyear, hmonth]
    split
    · rw [if_pos (by omega)]
      omega
    · split
      · omega
      · omega

theorem monthStart_mono {k k' : ℤ} (h : k ≤ k') : monthStart k ≤ monthStart k' := by
  obtain ⟨n, rfl⟩ := Int.le.dest h
  induction n with
  | zero => exact le_of_eq (by rw [Nat.cast_zero, Int.add_zero])
  | succ n ih =>
    have hstep := monthStart_succ (k + n)
    have hle := ih (by omega)
    rw [Nat.cast_add, Nat.cast_one, ← add_assoc]
    omega

/-! ## The month of a day -/

theorem yearStart_bounds :
    146097 * (y - 1970) - 1200 ≤ 400 * yearStart y ∧ 400 * yearStart y ≤ 146097 * (y - 1970) + 1200 := by
  unfold yearStart leapYears
  omega

theorem daysBeforeMonth_bounds {y m : ℤ} (hm : 0 ≤ m) (hm' : m < 12) :
    146097 * m - 14400 ≤ 4800 * daysBeforeMonth y m ∧ 4800 * daysBeforeMonth y m ≤ 146097 * m + 14400 := by
  have hleap := leapDay_bounds y
  unfold daysBeforeMonth
  split
  · omega
  · omega

theorem monthStart_bounds (k : ℤ) :
    146097 * (k - 23640) - 28800 ≤ 4800 * monthStart k ∧ 4800 * monthStart k ≤ 146097 * (k - 23640) + 28800 := by
  have hyear := yearStart_bounds (k / 12)
  have hmonth := daysBeforeMonth_bounds (y := k / 12) (m := k % 12) (by omega) (by omega)
  unfold monthStart
  omega

theorem monthOf_bounds (day : ℤ) : monthStart (monthOf day) ≤ day ∧ day < monthStart (monthOf day + 1) := by
  have hestimate : 146097 * (4800 * day / 146097) ≤ 4800 * day ∧
      4800 * day < 146097 * (4800 * day / 146097) + 146097 := by omega
  unfold monthOf
  dsimp only
  generalize hk : (23640 : ℤ) + 4800 * day / 146097 = k
  have hbefore := monthStart_bounds (k - 1)
  have hafter := monthStart_bounds (k + 1 + 1)
  split
  · rename_i hlt
    rw [Int.sub_add_cancel]
    omega
  · split
    · omega
    · omega

theorem monthOf_mono {day day' : ℤ} (h : day ≤ day') : monthOf day ≤ monthOf day' := by
  by_contra hlt
  have hmonth := monthStart_mono (show monthOf day' + 1 ≤ monthOf day by omega)
  have hbounds := monthOf_bounds day
  have hbounds' := monthOf_bounds day'
  omega

/-! ## The day of the week -/

theorem daysFromMonday_bounds (day : ℤ) : 0 ≤ daysFromMonday day ∧ daysFromMonday day < 7 := by
  unfold daysFromMonday
  omega

theorem week_start (day : ℤ) : day - daysFromMonday day = 7 * ((day + 3) / 7) - 3 := by
  unfold daysFromMonday
  omega

end CcSwitchServer.Foundations.Calendar
