import Mathlib.Algebra.Order.Group.Unbundled.Int
import Mathlib.Tactic.Common

/-! The proleptic Gregorian calendar: its days in their order, numbered without a break, and their weekdays. -/

namespace Gregorian

/-- Every fourth year, but of the centuries only every fourth one. -/
def IsLeap (year : Int) : Prop := 4 ∣ year ∧ (100 ∣ year → 400 ∣ year)

instance (year : Int) : Decidable (IsLeap year) := inferInstanceAs (Decidable (_ ∧ _))

/-- The number of days of a month. -/
def monthLength (year month : Int) : Int :=
  if month = 2 then if IsLeap year then 29 else 28
  else if month = 4 ∨ month = 6 ∨ month = 9 ∨ month = 11 then 30
  else 31

/--
The number of days since the first of March of the year 0.

In years that begin with March the day that is leapt in comes last, so that the months before a day
always have the same lengths.
-/
def dayNumber (year month day : Int) : Int :=
  let shifted := (month + 9) % 12
  let marchYear := year - shifted / 10
  365 * marchYear + marchYear / 4 - marchYear / 100 + marchYear / 400 + (306 * shifted + 5) / 10 + (day - 1)

/-- The weekday of a day, from Sunday as 0 to Saturday as 6. -/
def weekday (year month day : Int) : Int := (dayNumber year month day + 3) % 7

-- The first of January 1970 was a Thursday, and the last day of the year 0 a Sunday.
example : weekday 1970 1 1 = 4 ∧ weekday 0 12 31 = 0 := by decide

/-- The month behind a month, with its year. -/
def nextMonth (year month : Int) : Int × Int := if month < 12 then (year, month + 1) else (year + 1, 1)

/-- A month has four weeks at least, and three days more at most. -/
theorem monthLength_bounds (year month : Int) : 28 ≤ monthLength year month ∧ monthLength year month ≤ 31 := by
  unfold monthLength
  split
  · split <;> decide
  · split <;> decide

/-- Behind the last day of February the years go on as the leap rule says. -/
theorem dayNumber_march (year : Int) :
    dayNumber year 3 1 = dayNumber year 2 1 + if IsLeap year then 29 else 28 := by
  -- The day that is leapt in is what the quotients grow by from one year to the next.
  unfold dayNumber
  dsimp only
  by_cases leap : IsLeap year
  · rw [if_pos leap]
    unfold IsLeap at leap
    omega
  · rw [if_neg leap]
    unfold IsLeap at leap
    omega

/-- From March on a month has its place in the year that begins with March. -/
theorem dayNumber_of_march {month : Int} (march : 3 ≤ month) (bounded : month ≤ 12) (year : Int) :
    dayNumber year month 1 = 365 * year + year / 4 - year / 100 + year / 400 + (306 * (month - 3) + 5) / 10 := by
  have place : (month + 9) % 12 = month - 3 := by omega
  have same : (month - 3) / 10 = 0 := by omega
  rw [dayNumber, place, same, Int.sub_zero, Int.sub_self, Int.add_zero]

/-- The first of the next month is a month length later. -/
theorem dayNumber_nextMonth {year month : Int} (positive : 1 ≤ month) (before : month < 12) :
    dayNumber year (month + 1) 1 = dayNumber year month 1 + monthLength year month := by
  by_cases march : 3 ≤ month
  · -- From March on the quotient by ten counts the days of the months before.
    have length : (306 * (month + 1 - 3) + 5) / 10 = (306 * (month - 3) + 5) / 10 +
        if month = 4 ∨ month = 6 ∨ month = 9 ∨ month = 11 then 30 else 31 := by
      have months : month = 3 ∨ month = 4 ∨ month = 5 ∨ month = 6 ∨ month = 7 ∨ month = 8 ∨ month = 9 ∨
          month = 10 ∨ month = 11 := by omega
      rcases months with rfl | rfl | rfl | rfl | rfl | rfl | rfl | rfl | rfl <;> rfl
    rw [dayNumber_of_march (by omega) (by omega), dayNumber_of_march march (by omega), monthLength,
      if_neg (by omega), length]
    omega
  · obtain rfl | rfl : month = 1 ∨ month = 2 := by omega
    · -- January is not the last month of its year either.
      unfold dayNumber
      simp [monthLength]
      omega
    · rw [monthLength, if_pos rfl]
      exact dayNumber_march year

/-- The first of January is 31 days after the first of December. -/
theorem dayNumber_nextYear (year : Int) : dayNumber (year + 1) 1 1 = dayNumber year 12 1 + 31 := by
  -- Both are in the year that began in March.
  unfold dayNumber
  dsimp only
  omega

/-- The weekday of the first goes on by the length of the month. -/
theorem weekday_nextMonth {year month : Int} (positive : 1 ≤ month) (bounded : month ≤ 12) :
    weekday (nextMonth year month).1 (nextMonth year month).2 1 =
      (weekday year month 1 + monthLength year month) % 7 := by
  -- The days are counted on from month to month, and from December to January.
  have number : dayNumber (nextMonth year month).1 (nextMonth year month).2 1 =
      dayNumber year month 1 + monthLength year month := by
    unfold nextMonth
    split
    · rename_i before
      exact dayNumber_nextMonth positive before
    · rename_i last
      obtain rfl : month = 12 := by omega
      exact dayNumber_nextYear year
  rw [weekday, weekday, number]
  omega

theorem weekday_bounds (year month day : Int) : 0 ≤ weekday year month day ∧ weekday year month day < 7 := by
  unfold weekday
  omega

end Gregorian
