import Mathlib.Tactic.IntervalCases
import OoOS.Libk.Arith

/-!
# Timestamps of the real-time clock

The leap days are counted by a formula, relative to the first leap year after 1970.
-/

namespace OoOS.Drivers

open Libk

structure RtcTime where
  sec : Nat
  min : Nat
  hr : Nat
  day : Nat
  month : Nat
  year : Nat

def daysInMonth (month : Nat) (leap : Bool) : Nat :=
  if month = 9 ∨ month = 4 ∨ month = 6 ∨ month = 11 then 30
  else if month = 2 then if leap then 29 else 28
  else 31

def dayOfYear (month day : Nat) (leap : Bool) : Nat :=
  (List.range' 1 (month - 1)).foldl (fun result i => (result + daysInMonth i leap) % 2 ^ 16)
    ((day + 2 ^ 16 - 1) % 2 ^ 16)

/-- The differences are those of `int`, taken as words of 32 bits. -/
def yearsToDays (yr start : Nat) : Nat :=
  ((yr + (2 ^ 32 - start)) % 2 ^ 32 * 365 + (yr + (2 ^ 32 - upToNearest start 4)) % 2 ^ 32 / 4
    + 1) % 2 ^ 32

def toUnixTimestamp (t : RtcTime) : Nat :=
  t.sec + t.min * 60 + t.hr * 3600 +
    (dayOfYear t.month t.day (t.year % 4 = 0) + yearsToDays t.year 1970) % 2 ^ 32 * 86400

def isLeap (year : Nat) : Bool := year % 4 = 0 ∧ (year % 100 ≠ 0 ∨ year % 400 = 0)

/-- The days of the first years from 1970 on. -/
def daysOfYears : Nat → Nat
  | 0 => 0
  | years + 1 => daysOfYears years + if isLeap (1970 + years) then 366 else 365

def daysBeforeMonth (month : Nat) (leap : Bool) : Nat :=
  [0, 31, 59, 90, 120, 151, 181, 212, 243, 273, 304, 334].getD (month - 1) 0 +
    if leap ∧ 2 < month then 1 else 0

def secondsSinceEpoch (t : RtcTime) : Nat :=
  t.sec + t.min * 60 + t.hr * 3600 +
    (daysOfYears (t.year - 1970) + daysBeforeMonth t.month (isLeap t.year) + (t.day - 1)) * 86400

structure RtcTime.Valid (t : RtcTime) : Prop where
  sec : t.sec < 60
  min : t.min < 60
  hr : t.hr < 24
  day : 1 ≤ t.day ∧ t.day ≤ daysInMonth t.month (isLeap t.year)
  month : 1 ≤ t.month ∧ t.month ≤ 12
  year : 1970 ≤ t.year ∧ t.year ≤ 2099

lemma dayOfYear_eq {month day : Nat} (leap : Bool) (inYear : 1 ≤ month ∧ month ≤ 12)
    (inMonth : 1 ≤ day ∧ day ≤ 31) :
    dayOfYear month day leap = daysBeforeMonth month leap + (day - 1) := by
  obtain ⟨hl, hu⟩ := inYear
  have first : (day + 2 ^ 16 - 1) % 2 ^ 16 = day - 1 := by omega
  rw [dayOfYear, first]
  interval_cases month <;> cases leap <;>
    simp only [List.range', List.foldl, daysBeforeMonth, daysInMonth] <;> norm_num <;> omega

variable {years : Nat}

lemma yearsToDays_eq (few : years < 130) : yearsToDays (1970 + years) 1970 =
    365 * years + if 2 ≤ years then (years - 2) / 4 + 1 else 2 ^ 30 := by
  split
  · have first : upToNearest 1970 4 = 1972 := by decide
    have hy : 1970 + years + (2 ^ 32 - 1970) = years + 2 ^ 32 := by omega
    have hl : 1970 + years + (2 ^ 32 - 1972) = years - 2 + 2 ^ 32 := by omega
    rw [yearsToDays, first, hy, hl, Nat.add_mod_right, Nat.add_mod_right]
    repeat rw [Nat.mod_eq_of_lt (by omega)]
    omega
  · interval_cases years <;> decide

lemma isLeap_eq (few : years < 130) :
    isLeap (1970 + years) = decide (years % 4 = 2) := by
  rw [isLeap, decide_eq_decide]
  omega

lemma daysOfYears_eq (few : years ≤ 130) :
    daysOfYears years = 365 * years + (years + 1) / 4 := by
  induction years with
  | zero => rfl
  | succ years ih =>
    rw [daysOfYears, ih (by omega), isLeap_eq (by omega)]
    split <;> simp_all <;> omega

/-- A leap year counts its own leap day from its first day on, and before 1972 the
difference wraps round. -/
theorem toUnixTimestamp_eq_iff (t : RtcTime) (valid : t.Valid) :
    toUnixTimestamp t = secondsSinceEpoch t ↔ 1973 ≤ t.year ∧ t.year % 4 ≠ 0 := by
  obtain ⟨years, hy⟩ := Nat.exists_eq_add_of_le valid.year.1
  have few := valid.year.2
  have hd : t.day ≤ 31 := valid.day.2.trans (by unfold daysInMonth; split_ifs <;> omega)
  have leap : decide (t.year % 4 = 0) = isLeap t.year := by
    rw [hy, isLeap_eq (by omega), decide_eq_decide]
    omega
  have small : daysBeforeMonth t.month (isLeap t.year) ≤ 335 := by
    obtain ⟨hl, hu⟩ := valid.month
    unfold daysBeforeMonth
    interval_cases t.month <;> simp <;> split <;> omega
  rw [toUnixTimestamp, secondsSinceEpoch, leap, dayOfYear_eq _ valid.month ⟨valid.day.1, hd⟩, hy,
    Nat.add_sub_cancel_left, daysOfYears_eq (by omega), yearsToDays_eq (by omega)]
  rw [hy] at small
  split
  · rw [Nat.mod_eq_of_lt (by omega)]
    omega
  · rw [Nat.mod_eq_of_lt (by omega)]
    omega

theorem toUnixTimestamp_eq_iff_2025 :
    toUnixTimestamp ⟨0, 0, 12, 16, 11, 2025⟩ = secondsSinceEpoch ⟨0, 0, 12, 16, 11, 2025⟩ :=
  (toUnixTimestamp_eq_iff _ ⟨by decide, by decide, by decide, by decide, by decide, by decide⟩).mpr
    (by decide)

/-- The last day of a leap year and the first of the next year are one. -/
theorem toUnixTimestamp_newYear :
    toUnixTimestamp ⟨0, 0, 0, 31, 12, 2024⟩ = toUnixTimestamp ⟨0, 0, 0, 1, 1, 2025⟩ ∧
      secondsSinceEpoch ⟨0, 0, 0, 31, 12, 2024⟩ ≠ secondsSinceEpoch ⟨0, 0, 0, 1, 1, 2025⟩ := by
  decide

end OoOS.Drivers
