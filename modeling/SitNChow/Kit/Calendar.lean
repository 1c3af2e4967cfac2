/-
The proleptic Gregorian calendar on day numbers: years as intervals of
days, weekdays, and the Sunday rules that daylight-saving zones are
written in.

Day 0 is Thursday, 1970-01-01. Everything is integer arithmetic with
floor division, so it evaluates, and the interval facts are linear:
`omega` closes them from the definition of `yearStart`.
-/
import Mathlib.Tactic.Common

namespace Kit.Calendar

-- ============================================================== years

/-- The day number of 1 January of year `y`: 365 days a year, one more
for each multiple of four that is no century or a fourth century. -/
def yearStart (y : Int) : Int :=
  365 * (y - 1970) + ((y - 1) / 4 - 492) - ((y - 1) / 100 - 19)
    + ((y - 1) / 400 - 4)

/-- The year a day falls in: the mean-year estimate, off by one at
most. -/
def yearOf (d : Int) : Int :=
  let y := 1970 + d * 400 / 146097
  if d < yearStart y then y - 1
  else if yearStart (y + 1) ≤ d then y + 1
  else y

/-- Years are 365 or 366 days long. -/
theorem yearStart_succ (y : Int) :
    yearStart y + 365 ≤ yearStart (y + 1)
      ∧ yearStart (y + 1) ≤ yearStart y + 366 := by
  unfold yearStart
  omega

/-- Later years start later. -/
theorem yearStart_mono {y z : Int} (h : y ≤ z) : yearStart y ≤ yearStart z := by
  unfold yearStart
  omega

/-- A day lies within its year. -/
theorem yearOf_bounds (d : Int) :
    yearStart (yearOf d) ≤ d ∧ d < yearStart (yearOf d + 1) := by
  have hmean : ∀ y, 146097 * (y - 1970) - 800 ≤ 400 * yearStart y
      ∧ 400 * yearStart y ≤ 146097 * (y - 1970) + 800 := by
    intro y
    unfold yearStart
    omega
  unfold yearOf
  generalize hy : 1970 + d * 400 / 146097 = y
  have h₀ := hmean (y - 1)
  have h₁ := hmean y
  have h₂ := hmean (y + 1)
  have h₃ := hmean (y + 1 + 1)
  dsimp only
  split
  · rw [show y - 1 + 1 = y by omega]
    omega
  · split
    · omega
    · omega

-- =========================================================== weekdays

/-- The weekday of a day, Sunday 0 to Saturday 6. -/
def weekday (d : Int) : Int := (d + 4) % 7

/-- The first Sunday on or after a day. -/
def sundayFrom (d : Int) : Int := d + (-weekday d) % 7

theorem weekday_range (d : Int) : 0 ≤ weekday d ∧ weekday d < 7 := by
  unfold weekday
  omega

/-- The first Sunday on or after a day is a Sunday, less than a week
away. -/
theorem sundayFrom_spec (d : Int) :
    weekday (sundayFrom d) = 0 ∧ d ≤ sundayFrom d ∧ sundayFrom d < d + 7 := by
  unfold sundayFrom weekday
  omega

/-- The second Sunday of March: the first on or after 8 March, which is
299 days before the next year. -/
def secondSundayOfMarch (y : Int) : Int := sundayFrom (yearStart (y + 1) - 299)

/-- The first Sunday of November: the first on or after 1 November,
which is 61 days before the next year. -/
def firstSundayOfNovember (y : Int) : Int := sundayFrom (yearStart (y + 1) - 61)

end Kit.Calendar
