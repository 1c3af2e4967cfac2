/-
`stepper_rotate` and `stepper_move_ramp` (dispenser.c) in their machine
arithmetic: the periods that are requested from `step_pulse`, in order.

For the ramps `stepper_rotate` asks for, the 32-bit arithmetic is that of
an unbounded profile (`rotateSteps_toNat`), and no intermediate result
wraps (`NoWrap`).
-/
import SitNChow.Kit.Trapezoid
import SitNChow.Motor

namespace SitNChow

open Kit
open Kit.Trapezoid (Phases Close profile slope)

-- =============================================================== the loops

/-- `for (uint32_t i = 0; i < n; i++)` with one request a turn. -/
def forUpTo (n : UInt32) (f : UInt32 → UInt32) : List UInt32 :=
  (List.range n.toNat).map fun i => f (UInt32.ofNat i)

/-- `(uint32_t)(((uint64_t)(start - target) * i) / ramp_steps)`. -/
def rampOffset (start target ramp i : UInt32) : UInt32 :=
  ((start - target).toUInt64 * i.toUInt64 / ramp.toUInt64).toUInt32

/-- `stepper_move_ramp`. -/
def stepperMoveRamp (steps start target ramp : UInt32) : Phases UInt32 :=
  if steps = 0 then ⟨[], [], []⟩
  else
    let target := if target < 10 then 10 else target
    let start := if start < target then target else start
    let ramp := if ramp * 2 > steps then steps / 2 else ramp
    { up := forUpTo ramp fun i => start - rampOffset start target ramp i
      cruise := forUpTo (steps - 2 * ramp) fun _ => target
      down := forUpTo ramp fun i => target + rampOffset start target ramp i }

/-- `target_period_us` of `stepper_rotate`. -/
def targetPeriodUs (rpm : UInt32) : UInt32 :=
  let denom : UInt64 := rpm.toUInt64 * 200 * 8
  let target := (60000000 / denom).toUInt32
  if target < 800 then 800 else target

/-- `ramp_steps` of `stepper_rotate`. -/
def rotateRampSteps (totalSteps : UInt32) : UInt32 :=
  if totalSteps < 1200 then totalSteps / 3 else 400

/-- `stepper_rotate` from where it has computed `total_steps`. -/
def rotateSteps (totalSteps rpm : UInt32) : Phases UInt32 :=
  let target := targetPeriodUs rpm
  let start := target * 2
  stepperMoveRamp totalSteps start target (rotateRampSteps totalSteps)

-- ========================================================= in plain numbers

variable {steps start target ramp rpm totalSteps i : UInt32}

theorem forUpTo_toNat (n : UInt32) (f : UInt32 → UInt32) :
    (forUpTo n f).map UInt32.toNat
      = (List.range n.toNat).map fun i => (f (UInt32.ofNat i)).toNat := by
  unfold forUpTo
  rw [List.map_map]
  rfl

/-- The 64-bit product does not wrap, and the quotient of a turn of the
loop fits 32 bits. -/
theorem rampOffset_toNat (h : target ≤ start) (hi : i.toNat ≤ ramp.toNat) :
    (rampOffset start target ramp i).toNat
      = slope (start.toNat - target.toNat) ramp.toNat i.toNat := by
  have hle := Trapezoid.slope_le (e := start.toNat - target.toNat) hi
  have hprod : (start.toNat - target.toNat) * i.toNat < UInt64.size := by
    calc (start.toNat - target.toNat) * i.toNat
        ≤ (UInt32.size - 1) * (UInt32.size - 1) := by
          refine Nat.mul_le_mul ?_ ?_
          · have := start.toNat_lt
            simp only [UInt32.size]
            omega
          · have := i.toNat_lt
            simp only [UInt32.size]
            omega
      _ < UInt64.size := by decide
  unfold rampOffset
  rw [UInt64.toNat_toUInt32, UInt64.toNat_div, UInt64.toNat_mul,
    UInt32.toNat_toUInt64, UInt32.toNat_toUInt64, UInt32.toNat_toUInt64,
    UInt32.toNat_sub_of_le _ _ h, Nat.mod_eq_of_lt hprod]
  refine Nat.mod_eq_of_lt (Nat.lt_of_le_of_lt hle ?_)
  have := start.toNat_lt
  omega

theorem toNat_ofNat_range {n : UInt32} {i : Nat} (hi : i ∈ List.range n.toNat) :
    (UInt32.ofNat i).toNat = i ∧ i < n.toNat := by
  have hlt := List.mem_range.mp hi
  refine ⟨UInt32.toNat_ofNat_of_lt' ?_, hlt⟩
  exact Nat.lt_trans hlt n.toNat_lt

/-- Without a clamp or a cut, `stepper_move_ramp` is its three loops. -/
theorem stepperMoveRamp_of_le (htarget : 10 ≤ target) (hstart : target ≤ start)
    (hramp : 2 * ramp.toNat ≤ steps.toNat) :
    stepperMoveRamp steps start target ramp
      = { up := forUpTo ramp fun i => start - rampOffset start target ramp i
          cruise := forUpTo (steps - 2 * ramp) fun _ => target
          down := forUpTo ramp fun i => target + rampOffset start target ramp i } := by
  have htarget' : ¬ target < 10 := UInt32.not_lt.mpr htarget
  have hstart' : ¬ start < target := UInt32.not_lt.mpr hstart
  have hdouble : ¬ ramp * 2 > steps := by
    have hnat : (ramp * 2).toNat ≤ ramp.toNat * 2 := by
      rw [UInt32.toNat_mul]
      exact Nat.mod_le _ _
    rw [gt_iff_lt, UInt32.lt_iff_toNat_lt]
    omega
  unfold stepperMoveRamp
  by_cases hzero : steps = 0
  · -- without a step there is no ramp either
    have hsteps : steps.toNat = 0 := by
      rw [hzero]
      rfl
    have hnone : ramp.toNat = 0 := by omega
    have hramp0 : ramp = 0 := UInt32.toNat_inj.mp hnone
    subst hzero hramp0
    rfl
  · rw [if_neg hzero]
    dsimp only
    rw [if_neg htarget', if_neg hstart', if_neg hdouble]

/-- A ramp of at most half the steps, from a start that is not faster
than the target, is the profile of unbounded arithmetic. -/
theorem stepperMoveRamp_toNat (htarget : 10 ≤ target) (hstart : target ≤ start)
    (hramp : 2 * ramp.toNat ≤ steps.toNat)
    (hmax : start.toNat ≤ 2 * target.toNat) (hfit : 2 * target.toNat < UInt32.size) :
    (stepperMoveRamp steps start target ramp).map UInt32.toNat
      = profile target.toNat (start.toNat - target.toNat) ramp.toNat
        (steps.toNat - 2 * ramp.toNat) := by
  have hle : target.toNat ≤ start.toNat := UInt32.le_iff_toNat_le.mp hstart
  have hoffset : ∀ i ∈ List.range ramp.toNat,
      (rampOffset start target ramp (UInt32.ofNat i)).toNat
          = slope (start.toNat - target.toNat) ramp.toNat i
        ∧ slope (start.toNat - target.toNat) ramp.toNat i
          ≤ start.toNat - target.toNat := by
    intro i hi
    obtain ⟨hnat, hlt⟩ := toNat_ofNat_range hi
    refine ⟨?_, Trapezoid.slope_le (Nat.le_of_lt hlt)⟩
    rw [rampOffset_toNat hstart (by omega), hnat]
  rw [stepperMoveRamp_of_le htarget hstart hramp]
  unfold Phases.map profile
  congr 1
  · rw [forUpTo_toNat]
    refine List.map_congr_left fun i hi => ?_
    obtain ⟨heq, hbound⟩ := hoffset i hi
    rw [UInt32.toNat_sub_of_le _ _ (UInt32.le_iff_toNat_le.mpr (by omega)), heq]
    omega
  · have hdouble : (2 * ramp).toNat = 2 * ramp.toNat := by
      rw [UInt32.toNat_mul]
      exact Nat.mod_eq_of_lt (Nat.lt_of_le_of_lt hramp steps.toNat_lt)
    rw [forUpTo_toNat, UInt32.toNat_sub_of_le _ _
      (UInt32.le_iff_toNat_le.mpr (by omega)), hdouble, List.map_const',
      List.length_range]
  · rw [forUpTo_toNat]
    refine List.map_congr_left fun i hi => ?_
    obtain ⟨heq, hbound⟩ := hoffset i hi
    rw [UInt32.toNat_add, heq]
    simp only [UInt32.size] at hfit
    exact Nat.mod_eq_of_lt (by omega)

-- ============================================================= the rotation

/-- The target is the period of the RPM, and at least 800 µs. -/
theorem targetPeriodUs_toNat (hrpm : 1 ≤ rpm) :
    (targetPeriodUs rpm).toNat = max 800 (60000000 / (rpm.toNat * 1600)) := by
  have hpos : 1 ≤ rpm.toNat := UInt32.le_iff_toNat_le.mp hrpm
  have hlt := rpm.toNat_lt
  have hdenom : (rpm.toUInt64 * 200 * 8).toNat = rpm.toNat * 1600 := by
    rw [UInt64.toNat_mul, UInt64.toNat_mul, UInt32.toNat_toUInt64]
    simp only [UInt64.reduceToNat]
    omega
  have hquot : 60000000 / (rpm.toNat * 1600) ≤ 37500 := by
    rw [Nat.div_le_iff_le_mul (by omega)]
    omega
  have htarget : (60000000 / (rpm.toUInt64 * 200 * 8)).toUInt32.toNat
      = 60000000 / (rpm.toNat * 1600) := by
    rw [UInt64.toNat_toUInt32, UInt64.toNat_div, hdenom]
    exact Nat.mod_eq_of_lt (Nat.lt_of_le_of_lt hquot (by decide))
  unfold targetPeriodUs
  dsimp only
  split
  · next h =>
    rw [UInt32.lt_iff_toNat_lt, htarget] at h
    exact (Nat.max_eq_left (Nat.le_of_lt h)).symm
  · next h =>
    rw [UInt32.lt_iff_toNat_lt, htarget] at h
    rw [htarget]
    exact (Nat.max_eq_right (Nat.le_of_not_lt h)).symm

/-- The target lies between 800 and 37500 µs. -/
theorem targetPeriodUs_bounds (hrpm : 1 ≤ rpm) :
    800 ≤ (targetPeriodUs rpm).toNat ∧ (targetPeriodUs rpm).toNat ≤ 37500 := by
  have hpos : 1 ≤ rpm.toNat := UInt32.le_iff_toNat_le.mp hrpm
  have hquot : 60000000 / (rpm.toNat * 1600) ≤ 37500 := by
    rw [Nat.div_le_iff_le_mul (by omega)]
    omega
  rw [targetPeriodUs_toNat hrpm]
  omega

/-- The ramp is the one of the unbounded model. -/
theorem rotateRampSteps_toNat (totalSteps : UInt32) :
    (rotateRampSteps totalSteps).toNat = rampSteps totalSteps.toNat := by
  unfold rotateRampSteps rampSteps
  rw [apply_ite UInt32.toNat, UInt32.toNat_div]
  simp only [UInt32.lt_iff_toNat_lt]
  rfl

theorem rampSteps_le (n : Nat) : 2 * rampSteps n ≤ n := by
  unfold rampSteps
  split <;> omega

/-- The start is twice the target. -/
theorem start_toNat (hrpm : 1 ≤ rpm) :
    (targetPeriodUs rpm * 2).toNat = 2 * (targetPeriodUs rpm).toNat := by
  have := targetPeriodUs_bounds hrpm
  rw [UInt32.toNat_mul]
  simp only [UInt32.reduceToNat]
  omega

/-- What `stepper_rotate` requests, in unbounded arithmetic. -/
theorem rotateSteps_toNat (hrpm : 1 ≤ rpm) (totalSteps : UInt32) :
    (rotateSteps totalSteps rpm).map UInt32.toNat
      = profile (targetPeriodUs rpm).toNat (targetPeriodUs rpm).toNat
        (rampSteps totalSteps.toNat)
        (totalSteps.toNat - 2 * rampSteps totalSteps.toNat) := by
  have hbounds := targetPeriodUs_bounds hrpm
  have hstart := start_toNat hrpm
  have hhalf : (targetPeriodUs rpm * 2).toNat - (targetPeriodUs rpm).toNat
      = (targetPeriodUs rpm).toNat := by omega
  unfold rotateSteps
  dsimp only
  rw [stepperMoveRamp_toNat, rotateRampSteps_toNat, hhalf]
  · exact UInt32.le_iff_toNat_le.mpr (Nat.le_trans (by decide) hbounds.1)
  · exact UInt32.le_iff_toNat_le.mpr (by omega)
  · rw [rotateRampSteps_toNat]
    exact rampSteps_le _
  · exact Nat.le_of_eq hstart
  · simp only [UInt32.size]
    omega

/-- The periods requested, in their order. -/
theorem rotateSteps_periods (hrpm : 1 ≤ rpm) (totalSteps : UInt32) :
    (rotateSteps totalSteps rpm).periods.map UInt32.toNat
      = (profile (targetPeriodUs rpm).toNat (targetPeriodUs rpm).toNat
        (rampSteps totalSteps.toNat)
        (totalSteps.toNat - 2 * rampSteps totalSteps.toNat)).periods := by
  rw [← Phases.periods_map, rotateSteps_toNat hrpm]

/-- One request a step. -/
theorem length_rotateSteps (hrpm : 1 ≤ rpm) (totalSteps : UInt32) :
    (rotateSteps totalSteps rpm).periods.length = totalSteps.toNat := by
  have hlen := congrArg List.length (rotateSteps_periods hrpm totalSteps)
  have hle := rampSteps_le totalSteps.toNat
  rw [List.length_map, Trapezoid.length_periods] at hlen
  omega

/-- The periods of a ramp down to a target and up again: monotone,
within a factor of two, and without jumps. -/
structure Smooth (target ramp : UInt32) (p : Phases UInt32) : Prop where
  length : p.up.length = ramp.toNat ∧ p.down.length = ramp.toNat
  up : p.up.Pairwise (· ≥ ·)
  cruise : ∀ q ∈ p.cruise, q = target
  down : p.down.Pairwise (· ≤ ·)
  range : ∀ q ∈ p.periods, target.toNat ≤ q.toNat ∧ q.toNat ≤ 2 * target.toNat
  close : 0 < ramp → p.periods.IsChain fun a b =>
    Close (target.toNat ⌈/⌉ ramp.toNat) a.toNat b.toNat

theorem rotateSteps_smooth (hrpm : 1 ≤ rpm) (totalSteps : UInt32) :
    Smooth (targetPeriodUs rpm) (rotateRampSteps totalSteps)
      (rotateSteps totalSteps rpm) := by
  have hphases := rotateSteps_toNat hrpm totalSteps
  have hperiods := rotateSteps_periods hrpm totalSteps
  have hramp := rotateRampSteps_toNat totalSteps
  have hup := congrArg Phases.up hphases
  have hcruise := congrArg Phases.cruise hphases
  have hdown := congrArg Phases.down hphases
  constructor
  · have hupLen := congrArg List.length hup
    have hdownLen := congrArg List.length hdown
    simp only [Phases.map, profile, List.length_map, List.length_range] at hupLen hdownLen
    omega
  · have hmono : ((rotateSteps totalSteps rpm).up.map UInt32.toNat).Pairwise (· ≥ ·) := by
      rw [show (rotateSteps totalSteps rpm).up.map UInt32.toNat = _ from hup]
      exact Trapezoid.pairwise_up
    exact (List.pairwise_map.mp hmono).imp fun h => UInt32.le_iff_toNat_le.mpr h
  · intro q hq
    have hmem : q.toNat ∈ (rotateSteps totalSteps rpm).cruise.map UInt32.toNat :=
      List.mem_map_of_mem hq
    rw [show (rotateSteps totalSteps rpm).cruise.map UInt32.toNat = _ from hcruise]
      at hmem
    exact UInt32.toNat_inj.mp (List.eq_of_mem_replicate hmem)
  · have hmono : ((rotateSteps totalSteps rpm).down.map UInt32.toNat).Pairwise (· ≤ ·) := by
      rw [show (rotateSteps totalSteps rpm).down.map UInt32.toNat = _ from hdown]
      exact Trapezoid.pairwise_down
    exact (List.pairwise_map.mp hmono).imp fun h => UInt32.le_iff_toNat_le.mpr h
  · intro q hq
    have hmem : q.toNat ∈ (rotateSteps totalSteps rpm).periods.map UInt32.toNat :=
      List.mem_map_of_mem hq
    rw [hperiods] at hmem
    have := Trapezoid.mem_periods hmem
    omega
  · intro hpos
    have hr : 0 < rampSteps totalSteps.toNat := by
      rw [← hramp]
      exact UInt32.lt_iff_toNat_lt.mp hpos
    have hchain := Trapezoid.isChain_periods (t := (targetPeriodUs rpm).toNat)
      (e := (targetPeriodUs rpm).toNat)
      (c := totalSteps.toNat - 2 * rampSteps totalSteps.toNat) hr
    rw [← hperiods, ← hramp] at hchain
    exact (List.isChain_map _).mp hchain

/-- No intermediate result of `stepper_rotate` and `stepper_move_ramp`
leaves its type, and nothing is subtracted that is larger. -/
structure NoWrap (totalSteps rpm : UInt32) : Prop where
  denom : rpm.toNat * 200 * 8 < UInt64.size
  target : 60000000 / (rpm.toNat * 200 * 8) < UInt32.size
  start : (targetPeriodUs rpm).toNat * 2 < UInt32.size
  double : (rotateRampSteps totalSteps).toNat * 2 < UInt32.size
  cruise : 2 * (rotateRampSteps totalSteps).toNat ≤ totalSteps.toNat
  range : targetPeriodUs rpm ≤ targetPeriodUs rpm * 2
  product : ∀ i < (rotateRampSteps totalSteps).toNat,
    (targetPeriodUs rpm * 2 - targetPeriodUs rpm).toNat * i < UInt64.size
  quotient : ∀ i < (rotateRampSteps totalSteps).toNat,
    (targetPeriodUs rpm * 2 - targetPeriodUs rpm).toNat * i
      / (rotateRampSteps totalSteps).toNat < UInt32.size
  up : ∀ i < rotateRampSteps totalSteps,
    rampOffset (targetPeriodUs rpm * 2) (targetPeriodUs rpm)
      (rotateRampSteps totalSteps) i ≤ targetPeriodUs rpm * 2
  down : ∀ i < rotateRampSteps totalSteps,
    (targetPeriodUs rpm).toNat
      + (rampOffset (targetPeriodUs rpm * 2) (targetPeriodUs rpm)
        (rotateRampSteps totalSteps) i).toNat < UInt32.size

theorem rampSteps_le_max (n : Nat) : rampSteps n ≤ 400 := by
  unfold rampSteps
  split <;> omega

theorem rotateSteps_noWrap (hrpm : 1 ≤ rpm) (totalSteps : UInt32) :
    NoWrap totalSteps rpm := by
  have hbounds := targetPeriodUs_bounds hrpm
  have hstart := start_toNat hrpm
  have hrange : targetPeriodUs rpm ≤ targetPeriodUs rpm * 2 :=
    UInt32.le_iff_toNat_le.mpr (by omega)
  have hspan : (targetPeriodUs rpm * 2 - targetPeriodUs rpm).toNat
      = (targetPeriodUs rpm).toNat := by
    rw [UInt32.toNat_sub_of_le _ _ hrange]
    omega
  have hramp : (rotateRampSteps totalSteps).toNat ≤ 400 := by
    rw [rotateRampSteps_toNat]
    exact rampSteps_le_max _
  have hprod : ∀ i < (rotateRampSteps totalSteps).toNat,
      (targetPeriodUs rpm).toNat * i ≤ 37500 * 400 := by
    intro i hi
    exact Nat.mul_le_mul hbounds.2 (by omega)
  have hoffset : ∀ i < rotateRampSteps totalSteps,
      (rampOffset (targetPeriodUs rpm * 2) (targetPeriodUs rpm)
        (rotateRampSteps totalSteps) i).toNat ≤ (targetPeriodUs rpm).toNat := by
    intro i hi
    have hle := Nat.le_of_lt (UInt32.lt_iff_toNat_lt.mp hi)
    rw [rampOffset_toNat hrange hle]
    refine (Trapezoid.slope_le hle).trans ?_
    omega
  have hrpmLt := rpm.toNat_lt
  constructor
  · simp only [UInt64.size]
    omega
  · refine Nat.lt_of_le_of_lt (Nat.div_le_self _ _) ?_
    decide
  · simp only [UInt32.size]
    omega
  · simp only [UInt32.size]
    omega
  · rw [rotateRampSteps_toNat]
    exact rampSteps_le _
  · exact hrange
  · intro i hi
    rw [hspan]
    exact Nat.lt_of_le_of_lt (hprod i hi) (by decide)
  · intro i hi
    rw [hspan]
    exact Nat.lt_of_le_of_lt ((Nat.div_le_self _ _).trans (hprod i hi)) (by decide)
  · intro i hi
    have := hoffset i hi
    exact UInt32.le_iff_toNat_le.mpr (by omega)
  · intro i hi
    have := hoffset i hi
    simp only [UInt32.size]
    omega

end SitNChow
