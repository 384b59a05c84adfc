import Mathlib.Algebra.Order.Ring.Int
import Mathlib.Data.List.GetD
import Mathlib.Tactic.Common

/-!
# The Gregorian calendar

Years, months and days, the number of each day counted from 1 January 1970, and the date of each
number. The calendar is extended without a break in both directions.
-/

namespace Calendar

/-! ### Segments -/

/-- The segment in which the `n`th place lies, and the place in it. -/
def locate : List ℕ → ℕ → ℕ × ℕ
  | [], n => (0, n)
  | length :: lengths, n =>
    if n < length then (0, n)
    else
      let (segment, place) := locate lengths (n - length)
      (segment + 1, place)

theorem locate_spec {lengths : List ℕ} {n : ℕ} (h : n < lengths.sum) :
    (locate lengths n).1 < lengths.length ∧
      (locate lengths n).2 < lengths.getD (locate lengths n).1 0 ∧
      (lengths.take (locate lengths n).1).sum + (locate lengths n).2 = n := by
  induction lengths generalizing n with
  | nil => exact absurd h (Nat.not_lt_zero n)
  | cons length lengths ih =>
    rw [List.sum_cons] at h
    by_cases hn : n < length
    · simp [locate, hn]
    · obtain ⟨hsegment, hplace, hsum⟩ := ih (show n - length < lengths.sum by omega)
      simp only [locate, if_neg hn, List.length_cons, List.take_succ_cons, List.sum_cons,
        List.getD_cons_succ]
      exact ⟨by omega, hplace, by omega⟩

/-! ### Years -/

def isLeap (year : ℤ) : Bool := year % 4 == 0 && (year % 100 != 0 || year % 400 == 0)

def monthLengths (year : ℤ) : List ℕ :=
  [31, if isLeap year then 29 else 28, 31, 30, 31, 30, 31, 31, 30, 31, 30, 31]

/-- The number of the first day of `year`. -/
def yearStart (year : ℤ) : ℤ :=
  365 * (year - 1) + (year - 1) / 4 - (year - 1) / 100 + (year - 1) / 400 - 719162

theorem isLeap_iff (year : ℤ) :
    isLeap year = true ↔ year % 4 = 0 ∧ (year % 100 ≠ 0 ∨ year % 400 = 0) := by
  simp [isLeap]

theorem yearStart_succ (year : ℤ) :
    yearStart (year + 1) = yearStart year + (monthLengths year).sum := by
  have hleap := isLeap_iff year
  unfold yearStart monthLengths
  cases h : isLeap year with
  | true =>
    rw [h] at hleap
    obtain ⟨hfour, hcentury⟩ := hleap.mp rfl
    simp only [if_true, List.sum_cons, List.sum_nil]
    omega
  | false =>
    rw [h] at hleap
    have hnot : ¬(year % 4 = 0 ∧ (year % 100 ≠ 0 ∨ year % 400 = 0)) := fun hyear => by
      cases hleap.mpr hyear
    simp only [Bool.false_eq_true, if_false, List.sum_cons, List.sum_nil]
    omega

/-- The year in which a day lies: 400 years have 146097 days, and the year read off that average
is at most one year out. -/
def yearOf (day : ℤ) : ℤ :=
  let year := 400 * (day + 719162) / 146097 + 1
  if yearStart (year + 1) ≤ day then year + 1
  else if yearStart year ≤ day then year
  else year - 1

theorem yearOf_spec (day : ℤ) :
    yearStart (yearOf day) ≤ day ∧ day < yearStart (yearOf day + 1) := by
  unfold yearOf
  simp only
  generalize hyear : 400 * (day + 719162) / 146097 + 1 = year
  split
  · rename_i hnext
    refine ⟨hnext, ?_⟩
    unfold yearStart
    omega
  · rename_i hnext
    split
    · exact ⟨‹_›, Int.not_le.mp hnext⟩
    · rename_i hthis
      rw [show year - 1 + 1 = year by omega]
      refine ⟨?_, Int.not_le.mp hthis⟩
      unfold yearStart
      omega

/-! ### Dates -/

/-- A day of the calendar; months count from 0, days of a month from 1. -/
structure Date where
  year : ℤ
  month : ℕ
  day : ℕ
  month_lt : month < 12
  day_pos : 0 < day
  day_le : day ≤ (monthLengths year).getD month 0

/-- The number of the day before which `month` of `year` and `day` days of it have passed. -/
def dayNumber (year : ℤ) (month : ℕ) (day : ℤ) : ℤ :=
  yearStart year + ((monthLengths year).take month).sum + day - 1

theorem dayOfYear_lt (number : ℤ) :
    (number - yearStart (yearOf number)).toNat < (monthLengths (yearOf number)).sum := by
  have hspec := yearOf_spec number
  rw [yearStart_succ] at hspec
  omega

/-- The date of a day by its number. -/
def date (number : ℤ) : Date :=
  let year := yearOf number
  let place := locate (monthLengths year) (number - yearStart year).toNat
  { year := year
    month := place.1
    day := place.2 + 1
    month_lt := (locate_spec (dayOfYear_lt number)).1
    day_pos := Nat.succ_pos _
    day_le := (locate_spec (dayOfYear_lt number)).2.1 }

theorem dayNumber_date (number : ℤ) :
    dayNumber (date number).year (date number).month (date number).day = number := by
  have hsum := (locate_spec (dayOfYear_lt number)).2.2
  have hspec := yearOf_spec number
  change yearStart (yearOf number) +
    ((monthLengths (yearOf number)).take (locate _ _).1).sum + ((locate _ _).2 + 1 : ℕ) - 1 = number
  omega

example : (date 16729).year = 2015 ∧ (date 16729).month = 9 ∧ (date 16729).day = 21 := by decide

theorem Date.day_le_31 (d : Date) : d.day ≤ 31 := by
  have hall : ∀ length ∈ monthLengths d.year, length ≤ 31 := by
    unfold monthLengths
    split <;> decide
  have hmonth : d.month < (monthLengths d.year).length := d.month_lt
  have hle := d.day_le
  rw [List.getD_eq_getElem _ _ hmonth] at hle
  exact Nat.le_trans hle (hall _ (List.getElem_mem _))

end Calendar
