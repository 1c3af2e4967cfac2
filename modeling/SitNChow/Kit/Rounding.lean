/-
Rounding to a binary format of `p` bits, as floating-point arithmetic
does after each operation: to the nearest number of the format, a tie to
the even one. The exponent is not bounded, so a format that has smallest
and largest numbers is described only between them.

# What is used of it

A calculation is written for any `Rounding p`. Its laws say that it is
monotone, does nothing to numbers of the format, and goes along with
powers of two. Besides `nearest` they hold of arithmetic that does not
round at all (`exact`).
-/
import Mathlib.Data.Int.Log
import Mathlib.Data.Rat.Floor
import Mathlib.Tactic.FieldSimp
import Mathlib.Tactic.Linarith
import Mathlib.Tactic.NormNum
import Mathlib.Tactic.Positivity
import Mathlib.Tactic.Ring

namespace Kit

/-- Arithmetic whose results are rounded to numbers of `p` bits. -/
structure Rounding (p : Nat) where
  round : Rat → Rat
  mono : ∀ {x y : Rat}, 0 ≤ x → x ≤ y → round x ≤ round y
  fixed : ∀ {n : Nat}, n ≤ 2 ^ p → round n = n
  scale : ∀ (x : Rat) (k : Int), round (x * 2 ^ k) = round x * 2 ^ k
  idem : ∀ {x : Rat}, 0 ≤ x → round (round x) = round x

namespace Rounding

variable {p : Nat} {x y : Rat} {n : Int}

/-- Nothing is rounded. -/
def exact : Rounding p where
  round x := x
  mono _ h := h
  fixed _ := rfl
  scale _ _ := rfl
  idem _ := rfl

-- ============================================================ to integers

/-- The nearest integer, of two the even one. -/
def nearestEven (x : Rat) : Int :=
  let n := ⌊x⌋
  if 1 / 2 < x - n ∨ (x - n = 1 / 2 ∧ n % 2 = 1) then n + 1 else n

/-- It is one of the two neighbours. -/
theorem floor_le_nearestEven (x : Rat) :
    ⌊x⌋ ≤ nearestEven x ∧ nearestEven x ≤ ⌊x⌋ + 1 := by
  unfold nearestEven
  dsimp only
  split <;> omega

/-- An integer stays as it is. -/
@[simp] theorem nearestEven_intCast (n : Int) : nearestEven n = n := by
  unfold nearestEven
  dsimp only
  rw [Int.floor_intCast, sub_self, if_neg (by norm_num)]

/-- A larger number has no smaller neighbour. -/
theorem nearestEven_mono (h : x ≤ y) : nearestEven x ≤ nearestEven y := by
  have hfloor : ⌊x⌋ ≤ ⌊y⌋ := Int.floor_le_floor h
  rcases Int.lt_or_eq_of_le hfloor with hlt | heq
  · have hx := (floor_le_nearestEven x).2
    have hy := (floor_le_nearestEven y).1
    omega
  · -- Between the same neighbours the larger number goes up if the other does.
    have hsub : x - ⌊y⌋ ≤ y - ⌊y⌋ := sub_le_sub_right h _
    unfold nearestEven
    dsimp only
    rw [heq]
    split
    next hx =>
      rw [if_pos]
      rcases hx with hx | ⟨hx, hodd⟩
      · exact .inl (lt_of_lt_of_le hx hsub)
      · rcases lt_or_eq_of_le (hx ▸ hsub) with hy | hy
        · exact .inl hy
        · exact .inr ⟨hy.symm, hodd⟩
    next => split <;> omega

-- ============================================================== to p bits

/-- The distance of two numbers of `p` bits at the magnitude of `x`. -/
def unit (p : Nat) (x : Rat) : Rat := 2 ^ (Int.log 2 |x| + 1 - p)

/-- The nearest number of `p` bits, of two the one with an even last
bit. -/
def toNearest (p : Nat) (x : Rat) : Rat := nearestEven (x / unit p x) * unit p x

/-- The distance is positive. -/
theorem unit_pos (p : Nat) (x : Rat) : 0 < unit p x := zpow_pos (by norm_num) _

/-- A positive number has exactly `p` bits in front of its unit. -/
theorem unit_bounds (hx : 0 < x) :
    2 ^ ((p : Int) - 1) ≤ x / unit p x ∧ x / unit p x < 2 ^ (p : Int) := by
  have hlog := Int.zpow_log_le_self (b := 2) (by norm_num) hx
  have hsucc := Int.lt_zpow_succ_log_self (b := 2) (by norm_num) x
  push_cast at hlog hsucc
  rw [le_div_iff₀ (unit_pos p x), div_lt_iff₀ (unit_pos p x), unit,
    abs_of_pos hx, ← zpow_add₀ (by norm_num), ← zpow_add₀ (by norm_num)]
  refine ⟨?_, ?_⟩
  · rwa [show (p : Int) - 1 + (Int.log 2 x + 1 - p) = Int.log 2 x by ring]
  · rwa [show (p : Int) + (Int.log 2 x + 1 - p) = Int.log 2 x + 1 by ring]

/-- So it is rounded to a number of `p` bits, or to the next power of
two. -/
theorem nearestEven_bounds (hp : 1 ≤ p) (hx : 0 < x) :
    2 ^ (p - 1) ≤ nearestEven (x / unit p x)
      ∧ nearestEven (x / unit p x) ≤ 2 ^ p := by
  obtain ⟨hlo, hhi⟩ := unit_bounds (p := p) hx
  refine ⟨?_, ?_⟩
  · have hlo' : (((2 ^ (p - 1) : Int)) : Rat) ≤ x / unit p x := by
      push_cast
      rwa [← zpow_natCast, Nat.cast_sub hp]
    simpa only [nearestEven_intCast] using nearestEven_mono hlo'
  · have hhi' : x / unit p x ≤ ((2 ^ p : Int) : Rat) := by
      push_cast
      rw [← zpow_natCast]
      exact le_of_lt hhi
    simpa only [nearestEven_intCast] using nearestEven_mono hhi'

/-- A power of two moves the magnitude. -/
theorem log_mul_zpow (hx : 0 < x) (k : Int) :
    Int.log 2 (x * 2 ^ k) = Int.log 2 x + k := by
  have hlog := Int.zpow_log_le_self (b := 2) (by norm_num) hx
  have hsucc := Int.lt_zpow_succ_log_self (b := 2) (by norm_num) x
  have hk : (0 : Rat) < 2 ^ k := zpow_pos (by norm_num) k
  have hpos : 0 < x * 2 ^ k := mul_pos hx hk
  push_cast at hlog hsucc
  refine le_antisymm ?_ ?_
  · rw [← Int.lt_add_one_iff, ← Int.lt_zpow_iff_log_lt (by norm_num) hpos]
    push_cast
    rw [add_right_comm, zpow_add₀ (by norm_num)]
    exact mul_lt_mul_of_pos_right hsucc hk
  · rw [← Int.zpow_le_iff_le_log (by norm_num) hpos]
    push_cast
    rw [zpow_add₀ (by norm_num)]
    exact mul_le_mul_of_nonneg_right hlog (le_of_lt hk)

/-- Nothing rounds to nothing. -/
@[simp] theorem toNearest_zero : toNearest p 0 = 0 := by
  rw [toNearest, zero_div]
  have h := nearestEven_intCast 0
  push_cast at h
  rw [h]
  push_cast
  exact zero_mul _

/-- And with it the distance. -/
theorem unit_scale (hx : x ≠ 0) (k : Int) :
    unit p (x * 2 ^ k) = unit p x * 2 ^ k := by
  have hk : (0 : Rat) < 2 ^ k := zpow_pos (by norm_num) k
  rw [unit, unit, abs_mul, abs_of_pos hk, log_mul_zpow (abs_pos.mpr hx),
    ← zpow_add₀ (by norm_num)]
  congr 1
  ring

/-- Powers of two go through. -/
theorem toNearest_scale (x : Rat) (k : Int) :
    toNearest p (x * 2 ^ k) = toNearest p x * 2 ^ k := by
  by_cases hx : x = 0
  · rw [hx, zero_mul, toNearest_zero, zero_mul]
  · have hk : (2 : Rat) ^ k ≠ 0 := zpow_ne_zero _ (by norm_num)
    rw [toNearest, toNearest, unit_scale hx, mul_div_mul_right _ _ hk,
      mul_assoc]

/-- A number of `p` bits stays as it is. -/
theorem toNearest_natCast {m : Nat} (hm : m < 2 ^ p) :
    toNearest p (m : Rat) = m := by
  by_cases hzero : m = 0
  · rw [hzero, Nat.cast_zero, toNearest_zero]
  · have hlog : Nat.log 2 m < p := Nat.log_lt_of_lt_pow hzero hm
    have hunit : unit p (m : Rat) = (2 ^ (p - 1 - Nat.log 2 m) : Rat)⁻¹ := by
      rw [unit, Nat.abs_cast, Int.log_natCast, ← zpow_natCast, ← zpow_neg]
      congr 1
      omega
    have hquot : (m : Rat) / unit p (m : Rat)
        = ((m * 2 ^ (p - 1 - Nat.log 2 m) : Int) : Rat) := by
      rw [hunit, div_inv_eq_mul]
      push_cast
      rfl
    rw [toNearest, hquot, nearestEven_intCast, ← hquot,
      div_mul_cancel₀ _ (ne_of_gt (unit_pos _ _))]

theorem toNearest_fixed (hp : 1 ≤ p) {m : Nat} (hm : m ≤ 2 ^ p) :
    toNearest p (m : Rat) = m := by
  rcases Nat.lt_or_eq_of_le hm with hlt | rfl
  · exact toNearest_natCast hlt
  · have hone : toNearest p ((1 : Nat) : Rat) = (1 : Nat) :=
      toNearest_natCast (Nat.one_lt_two_pow (by omega))
    have hscale := toNearest_scale (p := p) ((1 : Nat) : Rat) p
    rw [hone] at hscale
    push_cast at hscale ⊢
    rwa [one_mul, zpow_natCast] at hscale

/-- Nothing gets below zero. -/
theorem toNearest_nonneg (hx : 0 ≤ x) : 0 ≤ toNearest p x := by
  have hquot : ((0 : Int) : Rat) ≤ x / unit p x := by
    push_cast
    exact div_nonneg hx (le_of_lt (unit_pos p x))
  have hle := nearestEven_mono hquot
  rw [nearestEven_intCast] at hle
  exact mul_nonneg (by exact_mod_cast hle) (le_of_lt (unit_pos p x))

/-- In one magnitude the order is that of the neighbours, and between two
magnitudes lies a power of two. -/
theorem toNearest_mono (hp : 1 ≤ p) (hx : 0 ≤ x) (h : x ≤ y) :
    toNearest p x ≤ toNearest p y := by
  rcases eq_or_lt_of_le hx with rfl | hpos
  · rw [toNearest_zero]
    exact toNearest_nonneg h
  have hpos' : 0 < y := lt_of_lt_of_le hpos h
  have hlog : Int.log 2 x ≤ Int.log 2 y := Int.log_mono_right hpos h
  rcases Int.lt_or_eq_of_le hlog with hlt | heq
  · -- A power of two lies between them.
    have hup : toNearest p x ≤ 2 ^ (Int.log 2 x + 1) := by
      have hle := (nearestEven_bounds hp hpos).2
      have hle' : (nearestEven (x / unit p x) : Rat) ≤ 2 ^ (p : Int) := by
        rw [zpow_natCast]
        exact_mod_cast hle
      have hmul := mul_le_mul_of_nonneg_right hle' (le_of_lt (unit_pos p x))
      rw [toNearest]
      refine le_trans hmul (le_of_eq ?_)
      rw [unit, abs_of_pos hpos, ← zpow_add₀ (by norm_num)]
      congr 1
      ring
    have hdown : 2 ^ Int.log 2 y ≤ toNearest p y := by
      have hle := (nearestEven_bounds hp hpos').1
      have hle' : (2 : Rat) ^ ((p : Int) - 1)
          ≤ (nearestEven (y / unit p y) : Rat) := by
        rw [show (p : Int) - 1 = ((p - 1 : Nat) : Int) by omega, zpow_natCast]
        exact_mod_cast hle
      have hmul := mul_le_mul_of_nonneg_right hle' (le_of_lt (unit_pos p y))
      rw [toNearest]
      refine le_trans (le_of_eq ?_) hmul
      rw [unit, abs_of_pos hpos', ← zpow_add₀ (by norm_num)]
      congr 1
      ring
    refine hup.trans (le_trans ?_ hdown)
    exact zpow_le_zpow_right₀ (by norm_num) hlt
  · have hunit : unit p x = unit p y := by
      rw [unit, unit, abs_of_pos hpos, abs_of_pos hpos', heq]
    have hquot : x / unit p x ≤ y / unit p x :=
      div_le_div_of_nonneg_right h (le_of_lt (unit_pos p x))
    have hle : (nearestEven (x / unit p x) : Rat)
        ≤ nearestEven (y / unit p x) := by
      exact_mod_cast nearestEven_mono hquot
    rw [toNearest, toNearest, ← hunit]
    exact mul_le_mul_of_nonneg_right hle (le_of_lt (unit_pos p x))

/-- What is rounded is a number of `p` bits, up to a power of two. -/
theorem toNearest_idem (hp : 1 ≤ p) (hx : 0 ≤ x) :
    toNearest p (toNearest p x) = toNearest p x := by
  rcases eq_or_lt_of_le hx with rfl | hpos
  · rw [toNearest_zero, toNearest_zero]
  obtain ⟨hlo, hhi⟩ := nearestEven_bounds hp hpos
  obtain ⟨m, hm⟩ := Int.eq_ofNat_of_zero_le
    (le_trans (by positivity) hlo)
  have hround : toNearest p x = (m : Rat) * 2 ^ (Int.log 2 |x| + 1 - p) := by
    rw [toNearest, hm]
    rfl
  rw [hm] at hhi
  have hmle : m ≤ 2 ^ p := by exact_mod_cast hhi
  rw [hround, toNearest_scale, toNearest_fixed hp hmle]

/-- Round to nearest, ties to even. -/
def nearest (p : Nat) (hp : 1 ≤ p) : Rounding p where
  round := toNearest p
  mono := toNearest_mono hp
  fixed := toNearest_fixed hp
  scale := toNearest_scale
  idem := toNearest_idem hp

/-- Single precision, between its smallest and its largest normal
number. -/
def single : Rounding 24 := .nearest 24 (by decide)

-- ================================================================ bounds

variable (fl : Rounding p)

/-- Powers of two stay as they are. -/
theorem round_two_zpow (k : Int) : fl.round (2 ^ k) = 2 ^ k := by
  have hone : fl.round ((1 : Nat) : Rat) = (1 : Nat) :=
    fl.fixed Nat.one_le_two_pow
  have hscale := fl.scale ((1 : Nat) : Rat) k
  rw [hone] at hscale
  push_cast at hscale
  rwa [one_mul] at hscale

/-- What is not negative does not become so. -/
theorem round_nonneg (hx : 0 ≤ x) : 0 ≤ fl.round x := by
  have hzero : fl.round ((0 : Nat) : Rat) = (0 : Nat) := fl.fixed (Nat.zero_le _)
  push_cast at hzero
  have hle := fl.mono (le_refl 0) hx
  rwa [hzero] at hle

/-- `x` lies between two powers of two. -/
def Between (i j : Int) (x : Rat) : Prop := 2 ^ i ≤ x ∧ x ≤ 2 ^ j

variable {i j k l : Int}

/-- So it is positive. -/
theorem Between.pos (h : Between i j x) : 0 < x :=
  lt_of_lt_of_le (zpow_pos (by norm_num) i) h.1

/-- Rounding does not go past a power of two. -/
theorem Between.round (h : Between i j x) : Between i j (fl.round x) := by
  have hlo := fl.mono (le_of_lt (zpow_pos (by norm_num) i)) h.1
  have hhi := fl.mono (le_of_lt h.pos) h.2
  rw [fl.round_two_zpow] at hlo hhi
  exact ⟨hlo, hhi⟩

/-- Exponents add up in a product. -/
theorem Between.mul (hx : Between i j x) (hy : Between k l y) :
    Between (i + k) (j + l) (x * y) := by
  refine ⟨?_, ?_⟩
  · rw [zpow_add₀ (by norm_num)]
    exact mul_le_mul hx.1 hy.1 (le_of_lt (zpow_pos (by norm_num) k))
      (le_of_lt hx.pos)
  · rw [zpow_add₀ (by norm_num)]
    exact mul_le_mul hx.2 hy.2 (le_of_lt hy.pos)
      (le_of_lt (zpow_pos (by norm_num) j))

/-- And change sign in a reciprocal. -/
theorem Between.inv (h : Between i j x) : Between (-j) (-i) x⁻¹ := by
  refine ⟨?_, ?_⟩
  · rw [zpow_neg]
    exact inv_anti₀ h.pos h.2
  · rw [zpow_neg]
    exact inv_anti₀ (zpow_pos (by norm_num) i) h.1

/-- Wider bounds. -/
theorem Between.mono (h : Between i j x) (hi : k ≤ i) (hj : j ≤ l) :
    Between k l x :=
  ⟨le_trans (zpow_le_zpow_right₀ (by norm_num) hi) h.1,
    le_trans h.2 (zpow_le_zpow_right₀ (by norm_num) hj)⟩

/-- A positive number lies between powers of two. -/
theorem exists_between (hx : 0 < x) : ∃ i j, Between i j x := by
  have hlog := Int.zpow_log_le_self (b := 2) (by norm_num) hx
  have hsucc := Int.lt_zpow_succ_log_self (b := 2) (by norm_num) x
  push_cast at hlog hsucc
  exact ⟨_, _, hlog, le_of_lt hsucc⟩

/-- What is positive stays positive. -/
theorem round_pos (hx : 0 < x) : 0 < fl.round x := by
  obtain ⟨i, j, h⟩ := exists_between hx
  exact (h.round fl).pos

end Rounding

end Kit
