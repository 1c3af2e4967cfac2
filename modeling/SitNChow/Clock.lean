/-
The clock as the firmware reads it: `struct tm` as filled in by
`localtime_r`, under the zone `app_main` sets (`TZ=EST5EDT`, main.c).

# The zone

`EST5EDT` names no change-over rule, so the C library applies its United
States default: daylight time from the second Sunday of March, 02:00
standard time, to the first Sunday of November, 02:00 daylight time,
both computed for the UTC year of the instant. `isDst` is that test and
`localtime` subtracts five hours, or four in daylight time.

# What is not monotone

Local time runs backwards once a year. `localtime_date_mono` says the
calendar date never does, and `fold_of_repeat` says where a minute of
one date can be seen again after another minute: only in the hour from
01:00 on the autumn change date, first in daylight and then in standard
time.
-/
import SitNChow.Kit.Calendar

namespace SitNChow

open Kit.Calendar

-- ========================================================== struct tm

/-- The fields of `struct tm` the firmware reads: the calendar date (as
a day number), `tm_hour`, `tm_min` and `tm_wday` (0 = Sunday). -/
structure Tm where
  date : Int
  hour : Fin 24
  min : Fin 60
  wday : Fin 7
deriving DecidableEq

/-- The fields of the `m`-th minute of local time, counted from local
midnight of day 0. -/
def Tm.ofMinute (m : Int) : Tm where
  date := m / 1440
  hour := ⟨(m % 1440 / 60).toNat, by omega⟩
  min := ⟨(m % 60).toNat, by omega⟩
  wday := ⟨(weekday (m / 1440)).toNat, by
    have := weekday_range (m / 1440)
    omega⟩

/-- The fields of a local time in seconds; seconds are not kept. -/
def Tm.ofLocal (l : Int) : Tm := .ofMinute (l / 60)

/-- Two minutes show the same time of day and weekday exactly when they
lie a whole number of weeks apart. -/
theorem Tm.ofMinute_week_iff (m n : Int) :
    ((Tm.ofMinute m).hour = (Tm.ofMinute n).hour
      ∧ (Tm.ofMinute m).min = (Tm.ofMinute n).min
      ∧ (Tm.ofMinute m).wday = (Tm.ofMinute n).wday)
      ↔ (10080 : Int) ∣ m - n := by
  simp only [Tm.ofMinute, Fin.mk.injEq, weekday]
  omega

/-- The date and the time of day determine the minute. -/
theorem Tm.ofMinute_date_iff (m n : Int) :
    ((Tm.ofMinute m).date = (Tm.ofMinute n).date
      ∧ (Tm.ofMinute m).hour = (Tm.ofMinute n).hour
      ∧ (Tm.ofMinute m).min = (Tm.ofMinute n).min) ↔ m = n := by
  simp only [Tm.ofMinute, Fin.mk.injEq]
  omega

/-- The weekday is a function of the date. -/
theorem Tm.ofMinute_wday_of_date {m n : Int}
    (h : (Tm.ofMinute m).date = (Tm.ofMinute n).date) :
    (Tm.ofMinute m).wday = (Tm.ofMinute n).wday := by
  simp only [Tm.ofMinute, Fin.mk.injEq] at h ⊢
  rw [h]

-- ============================================================ the zone

/-- The instant daylight time starts in year `y`: 02:00 standard time,
07:00 UTC. -/
def springChange (y : Int) : Int := secondSundayOfMarch y * 86400 + 25200

/-- The instant daylight time ends in year `y`: 02:00 daylight time,
06:00 UTC. -/
def autumnChange (y : Int) : Int := firstSundayOfNovember y * 86400 + 21600

/-- Is daylight time in force at a UTC instant? No rule applies before
1970. -/
def isDst (utc : Int) : Bool :=
  let y := yearOf (utc / 86400)
  decide (1970 ≤ y ∧ springChange y ≤ utc ∧ utc < autumnChange y)

/-- `localtime_r`: the local fields of a UTC instant. -/
def localtime (utc : Int) : Tm :=
  .ofLocal (utc - if isDst utc then 14400 else 18000)

/-- The change-over instants of a year lie inside it, spring well before
autumn, with months to spare at either end. -/
theorem change_bounds (y : Int) :
    yearStart y * 86400 + 5000000 ≤ springChange y
      ∧ springChange y + 19000000 ≤ autumnChange y
      ∧ autumnChange y + 4000000 ≤ yearStart (y + 1) * 86400 := by
  have hs := sundayFrom_spec (yearStart (y + 1) - 299)
  have ha := sundayFrom_spec (yearStart (y + 1) - 61)
  have hy := yearStart_succ y
  unfold springChange autumnChange secondSundayOfMarch firstSundayOfNovember
  omega

/-- A spring change and an autumn change are months apart. -/
theorem changes_apart (y z : Int) :
    springChange y + 1000000 ≤ autumnChange z
      ∨ autumnChange z + 1000000 ≤ springChange y := by
  have hy := change_bounds y
  have hz := change_bounds z
  rcases (by omega : y ≤ z ∨ z + 1 ≤ y) with hle | hlt
  · rcases (by omega : y = z ∨ y + 1 ≤ z) with rfl | hlt
    · omega
    · have := yearStart_mono hlt
      omega
  · have := yearStart_mono hlt
    omega

/-- An instant of daylight time lies between the changes of its year. -/
theorem isDst_bounds {utc : Int} (h : isDst utc = true) :
    ∃ y, 1970 ≤ y ∧ springChange y ≤ utc ∧ utc < autumnChange y :=
  ⟨_, by simpa [isDst] using h⟩

/-- An instant between the changes of a year has daylight time: it lies
in no other year. -/
theorem isDst_of_bounds {utc y : Int} (h₀ : 1970 ≤ y)
    (hs : springChange y ≤ utc) (ha : utc < autumnChange y) :
    isDst utc = true := by
  have hc := change_bounds y
  have hb := yearOf_bounds (utc / 86400)
  have hy : yearOf (utc / 86400) = y := by
    have h₁ : ¬ yearOf (utc / 86400) + 1 ≤ y := by
      intro hle
      have := yearStart_mono hle
      omega
    have h₂ : ¬ y + 1 ≤ yearOf (utc / 86400) := by
      intro hle
      have := yearStart_mono hle
      omega
    omega
  simp [isDst, hy, h₀, hs, ha]

/-- A daylight instant followed by a standard one: an autumn change lies
between them. -/
theorem autumn_between {a b : Int} (hab : a ≤ b) (ha : isDst a = true)
    (hb : isDst b = false) : ∃ y, a < autumnChange y ∧ autumnChange y ≤ b := by
  obtain ⟨y, h₀, hs, hlt⟩ := isDst_bounds ha
  refine ⟨y, hlt, ?_⟩
  by_contra hlt'
  have := isDst_of_bounds h₀ (by omega : springChange y ≤ b) (by omega)
  rw [hb] at this
  cases this

/-- A standard instant followed by a daylight one: a spring change lies
between them. -/
theorem spring_between {a b : Int} (hab : a ≤ b) (ha : isDst a = false)
    (hb : isDst b = true) : ∃ y, a < springChange y ∧ springChange y ≤ b := by
  obtain ⟨y, h₀, hs, hlt⟩ := isDst_bounds hb
  refine ⟨y, ?_, hs⟩
  by_contra hle
  have := isDst_of_bounds h₀ (by omega : springChange y ≤ a) (by omega)
  rw [ha] at this
  cases this

-- ================================================== dates and the fold

/-- The local date never runs backwards. -/
theorem localtime_date_mono {a b : Int} (hab : a ≤ b) :
    (localtime a).date ≤ (localtime b).date := by
  show (a - if isDst a then 14400 else 18000) / 60 / 1440
    ≤ (b - if isDst b then 14400 else 18000) / 60 / 1440
  cases ha : isDst a <;> cases hb : isDst b
  · simp only [Bool.false_eq_true, if_false]
    omega
  · simp only [Bool.false_eq_true, if_false, if_true]
    omega
  · -- the autumn change is at 02:00 of its date and leads back to 01:00
    obtain ⟨y, h₁, h₂⟩ := autumn_between hab ha hb
    simp only [autumnChange] at h₁ h₂
    simp only [Bool.false_eq_true, if_false, if_true]
    omega
  · simp only [if_true]
    omega

/-- A minute of one date seen again after another minute of that date:
the first sighting is in daylight time, the second in standard time, and
the minute lies in the repeated hour. -/
theorem fold_of_repeat {a x b : Int} (hax : a ≤ x) (hxb : x ≤ b)
    (hdate : (localtime a).date = (localtime b).date)
    (hhour : (localtime a).hour = (localtime b).hour)
    (hmin : (localtime a).min = (localtime b).min)
    (hother : ¬ ((localtime x).hour = (localtime a).hour
      ∧ (localtime x).min = (localtime a).min)) :
    isDst a = true ∧ isDst b = false ∧ (localtime a).hour = 1 := by
  have hab : a ≤ b := Int.le_trans hax hxb
  have hsame : (a - if isDst a then 14400 else 18000) / 60
      = (b - if isDst b then 14400 else 18000) / 60 :=
    (Tm.ofMinute_date_iff _ _).mp ⟨hdate, hhour, hmin⟩
  have hne : (x - if isDst x then 14400 else 18000) / 60
      ≠ (a - if isDst a then 14400 else 18000) / 60 := by
    intro he
    exact hother (by rw [localtime, localtime, Tm.ofLocal, Tm.ofLocal, he]; simp)
  cases ha : isDst a <;> cases hb : isDst b <;>
    simp only [ha, hb, Bool.false_eq_true, if_false, if_true] at hsame hne
  · -- both standard: `x` cannot be in daylight time within one minute
    exfalso
    cases hx : isDst x with
    | false =>
        simp only [hx, Bool.false_eq_true, if_false] at hne
        omega
    | true =>
        obtain ⟨y, h₁, h₂⟩ := spring_between hax ha hx
        obtain ⟨z, h₃, h₄⟩ := autumn_between hxb hx hb
        have hapart := changes_apart y z
        omega
  · exfalso
    omega
  · obtain ⟨y, h₁, h₂⟩ := autumn_between hab ha hb
    refine ⟨rfl, rfl, ?_⟩
    simp only [autumnChange] at h₁ h₂
    simp only [localtime, ha, if_true, Tm.ofLocal, Tm.ofMinute, Fin.ext_iff]
    show _ = 1
    omega
  · exfalso
    cases hx : isDst x with
    | true =>
        simp only [hx, if_true] at hne
        omega
    | false =>
        obtain ⟨z, h₁, h₂⟩ := autumn_between hax ha hx
        obtain ⟨y, h₃, h₄⟩ := spring_between hxb hx hb
        have hapart := changes_apart y z
        omega

end SitNChow
