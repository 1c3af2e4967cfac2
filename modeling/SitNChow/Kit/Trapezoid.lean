/-
Trapezoidal profiles: a sequence of step periods that comes down from
`t + e` to `t` in `r` steps, stays at `t` for `c`, and goes up again in
`r` steps, in whole units.

The slope is a truncated quotient, so neighbouring periods differ by `e`
over `r` rounded up, also where the phases meet (`isChain_periods`). What
the way down is above `t + e` less, the way up is above `t` more, so the
truncation cancels in the sum (`sum_periods`).
-/
import Mathlib.Algebra.BigOperators.Group.List.Basic
import Mathlib.Algebra.Order.Floor.Div
import Mathlib.Data.List.Range
import Mathlib.Tactic.Ring

namespace Kit.Trapezoid

universe u v

-- ========================================================== the three parts

/-- The three parts of a profile. -/
structure Phases (α : Type u) where
  up : List α
  cruise : List α
  down : List α

variable {α : Type u} {β : Type v}

/-- All periods in their order. -/
def Phases.periods (p : Phases α) : List α := p.up ++ (p.cruise ++ p.down)

def Phases.map (f : α → β) (p : Phases α) : Phases β :=
  ⟨p.up.map f, p.cruise.map f, p.down.map f⟩

@[simp] theorem Phases.periods_map (f : α → β) (p : Phases α) :
    (p.map f).periods = p.periods.map f := by
  simp [periods, map]

/-- How far a slope of height `e` over `r` steps has come after `i`. -/
def slope (e r i : Nat) : Nat := e * i / r

def profile (t e r c : Nat) : Phases Nat where
  up := (List.range r).map fun i => t + e - slope e r i
  cruise := List.replicate c t
  down := (List.range r).map fun i => t + slope e r i

/-- Two periods differ by at most `d`. -/
def Close (d a b : Nat) : Prop := a ≤ b + d ∧ b ≤ a + d

variable {t e r c i j d : Nat}

-- =============================================================== the slope

/-- A slope rises by its height at most. -/
theorem slope_le (hi : i ≤ r) : slope e r i ≤ e := by
  unfold slope
  refine Nat.div_le_of_le_mul ?_
  rw [Nat.mul_comm r e]
  exact Nat.mul_le_mul_left e hi

/-- It never goes back. -/
theorem slope_mono (h : i ≤ j) : slope e r i ≤ slope e r j :=
  Nat.div_le_div_right (Nat.mul_le_mul_left e h)

@[simp] theorem slope_zero : slope e r 0 = 0 := by
  unfold slope
  rw [Nat.mul_zero, Nat.zero_div]

/-- It comes to its height at its end. -/
theorem slope_full (hr : 0 < r) : slope e r r = e :=
  Nat.mul_div_cancel e hr

/-- One step comes `e` over `r` further, rounded up. -/
theorem slope_succ_le (hr : 0 < r) : slope e r (i + 1) ≤ slope e r i + e ⌈/⌉ r := by
  have hceil : e ≤ r * (e ⌈/⌉ r) := (ceilDiv_le_iff_le_mul hr).mp (Nat.le_refl _)
  unfold slope
  calc e * (i + 1) / r ≤ (e * i + r * (e ⌈/⌉ r)) / r := by
        refine Nat.div_le_div_right ?_
        rw [Nat.mul_add, Nat.mul_one]
        exact Nat.add_le_add_left hceil _
    _ = e * i / r + e ⌈/⌉ r := Nat.add_mul_div_left _ _ hr

-- ============================================================= the profile

/-- A profile has the periods of two slopes and the cruise. -/
theorem length_periods : (profile t e r c).periods.length = 2 * r + c := by
  simp only [Phases.periods, profile, List.length_append, List.length_map,
    List.length_range, List.length_replicate]
  omega

/-- The periods never increase on the way up. -/
theorem pairwise_up : (profile t e r c).up.Pairwise (· ≥ ·) := by
  refine List.pairwise_map.mpr (List.pairwise_lt_range.imp fun hij => ?_)
  exact Nat.sub_le_sub_left (slope_mono (Nat.le_of_lt hij)) _

/-- The periods never decrease on the way down. -/
theorem pairwise_down : (profile t e r c).down.Pairwise (· ≤ ·) := by
  refine List.pairwise_map.mpr (List.pairwise_lt_range.imp fun hij => ?_)
  exact Nat.add_le_add_left (slope_mono (Nat.le_of_lt hij)) _

/-- Every period lies between the target and the start. -/
theorem mem_periods {p : Nat} (hp : p ∈ (profile t e r c).periods) :
    t ≤ p ∧ p ≤ t + e := by
  simp only [Phases.periods, profile, List.mem_append, List.mem_map,
    List.mem_range] at hp
  rcases hp with ⟨i, hi, rfl⟩ | hp | ⟨i, hi, rfl⟩
  · have := slope_le (e := e) (Nat.le_of_lt hi)
    omega
  · rw [List.eq_of_mem_replicate hp]
    omega
  · have := slope_le (e := e) (Nat.le_of_lt hi)
    omega

/-- The last period before the cruise is close to it. -/
theorem close_last (hr : 0 < r) :
    ∀ p ∈ (profile t e r c).up.getLast?, Close (e ⌈/⌉ r) p t := by
  intro p hp
  obtain ⟨k, rfl⟩ := Nat.exists_eq_add_one_of_ne_zero (Nat.ne_of_gt hr)
  simp only [profile, List.range_succ, List.map_append, List.map_cons,
    List.map_nil, List.getLast?_concat, Option.mem_def, Option.some.injEq] at hp
  have hstep := slope_succ_le (e := e) (r := k + 1) (i := k) hr
  have hle := slope_le (e := e) (Nat.le_add_right k 1)
  rw [slope_full hr] at hstep
  subst hp
  unfold Close
  omega

/-- Behind the way down the profile starts at `t`. -/
theorem head_rest :
    ∀ p ∈ ((profile t e r c).cruise ++ (profile t e r c).down).head?, p = t := by
  intro p hp
  cases c with
  | succ c =>
      simp only [profile, List.replicate_succ, List.cons_append,
        List.head?_cons, Option.mem_def, Option.some.injEq] at hp
      exact hp.symm
  | zero =>
      cases r with
      | zero => simp [profile] at hp
      | succ r =>
          simp only [profile, List.replicate_zero, List.nil_append,
            List.range_succ_eq_map, List.map_cons, List.head?_cons, slope_zero,
            Nat.add_zero, Option.mem_def, Option.some.injEq] at hp
          exact hp.symm

/-- Neighbours on the way up differ by at most the height over the steps,
rounded up. -/
theorem isChain_up (hr : 0 < r) :
    (profile t e r c).up.IsChain (Close (e ⌈/⌉ r)) := by
  refine (List.isChain_map _).mpr ((List.isChain_range _ _).mpr fun i hi => ?_)
  have hstep := slope_succ_le (e := e) (i := i) hr
  have hmono := slope_mono (e := e) (r := r) (Nat.le_add_right i 1)
  have hle := slope_le (e := e) (show i + 1 ≤ r by omega)
  show Close _ (t + e - slope e r i) (t + e - slope e r (i + 1))
  unfold Close
  omega

/-- And so do neighbours on the way down. -/
theorem isChain_down (hr : 0 < r) :
    (profile t e r c).down.IsChain (Close (e ⌈/⌉ r)) := by
  refine (List.isChain_map _).mpr ((List.isChain_range _ _).mpr fun i hi => ?_)
  have hstep := slope_succ_le (e := e) (i := i) hr
  have hmono := slope_mono (e := e) (r := r) (Nat.le_add_right i 1)
  show Close _ (t + slope e r i) (t + slope e r (i + 1))
  unfold Close
  omega

/-- Neighbouring periods are close, within the phases and where they
meet. -/
theorem isChain_periods (hr : 0 < r) :
    (profile t e r c).periods.IsChain (Close (e ⌈/⌉ r)) := by
  have hcruise : (profile t e r c).cruise.IsChain (Close (e ⌈/⌉ r)) :=
    List.isChain_replicate_of_rel c ⟨Nat.le_add_right _ _, Nat.le_add_right _ _⟩
  have hdown : ∀ p ∈ (profile t e r c).down.head?, p = t := by
    have := head_rest (t := t) (e := e) (r := r) (c := 0)
    simpa [profile] using this
  refine (isChain_up hr).append (hcruise.append (isChain_down hr) ?_) ?_
  · intro p hp q hq
    rw [List.eq_of_mem_replicate (List.mem_of_mem_getLast? hp), hdown q hq]
    exact ⟨Nat.le_add_right _ _, Nat.le_add_right _ _⟩
  · intro p hp q hq
    rw [head_rest q hq]
    exact close_last hr p hp

-- ================================================================= the sum

/-- The two slopes together. -/
theorem sum_slopes :
    (profile t e r c).up.sum + (profile t e r c).down.sum = r * (2 * t + e) := by
  have hpair : ∀ i ∈ List.range r,
      t + e - slope e r i + (t + slope e r i) = 2 * t + e := by
    intro i hi
    have := slope_le (e := e) (Nat.le_of_lt (List.mem_range.mp hi))
    omega
  show ((List.range r).map _).sum + ((List.range r).map _).sum = _
  rw [← List.sum_map_add, List.map_congr_left hpair, List.map_const',
    List.length_range, List.sum_replicate, smul_eq_mul]

/-- The truncation of the two slopes cancels. -/
theorem sum_periods :
    (profile t e r c).periods.sum = (2 * r + c) * t + r * e := by
  have hslopes := sum_slopes (t := t) (e := e) (r := r) (c := c)
  have hcruise : (profile t e r c).cruise.sum = c * t := by
    show (List.replicate c t).sum = _
    rw [List.sum_replicate, smul_eq_mul]
  simp only [Phases.periods, List.sum_append, hcruise]
  have hsplit : r * (2 * t + e) = 2 * r * t + r * e := by ring
  have hsum : (2 * r + c) * t = 2 * r * t + c * t := by ring
  omega

end Kit.Trapezoid
