/-
`dispenser_run` (dispenser.c) as a whole call: what it does to the pins
when nobody else touches them, how many pulses it issues, and for how
long it turns the motor.

`Run` is the call executed step by step, with its pulses counted;
`PulsesOk` and `PinsOk` are what holds at each place of it. The
conversions on the way from a JSON number to `total_steps` are partial:
`toInt32` and `toUint32` give nothing where the C conversion is
undefined.

# The steps of the grams

Of the operations in `float` only the conversions, the quotient and the
factor 200 round (`stepsOf_quarter`). What they leave is `gramSteps`: 400
for each revolution when the revolutions are whole, and otherwise a step
less than without rounding where the quotient comes out below itself.
-/
import SitNChow.CJson
import SitNChow.Ramp
import Mathlib.Data.Rat.Floor
import Mathlib.Tactic.Positivity

namespace SitNChow

open Kit

-- ================================================================ the call

/-- A pulse is a rising edge of STEP. -/
def countPulse : DispenserPc → Nat → Nat
  | .pulseHigh _, pulses => pulses + 1
  | _, pulses => pulses

/-- `dispenser_run` on the way: where it is, the pins, and the pulses so
far. -/
structure Run where
  pc : DispenserPc
  motor : Motor
  pulses : Nat

/-- One step of the call. -/
def Run.step (cfg : MotorConfig) (grams : Int) (r : Run) : Run :=
  let next := dispenserStep cfg grams r.pc r.motor
  { pc := next.1, motor := next.2, pulses := countPulse r.pc r.pulses }

/-- The call after `n` steps, from pins that are as given. -/
def Run.after (cfg : MotorConfig) (grams : Int) (m : Motor) : Nat → Run
  | 0 => ⟨.check, m, 0⟩
  | n + 1 => (Run.after cfg grams m n).step cfg grams

/-- The pulses of a call that gets past the check of its argument. -/
def dispensePulses (cfg : MotorConfig) (grams : Int) : Nat :=
  if cfg.rpm = 0 then 0 else totalSteps cfg grams

/-- The pulses so far at each place of the call. -/
def PulsesOk (cfg : MotorConfig) (grams : Int) : DispenserPc → Nat → Prop
  | .check, pulses => pulses = 0
  | .enable, pulses => 0 < grams ∧ pulses = 0
  | .rotate, pulses => 0 < grams ∧ pulses = 0
  | .pulseHigh left, pulses =>
      0 < grams ∧ 0 < left ∧ pulses + left = dispensePulses cfg grams
  | .pulseLow left, pulses =>
      0 < grams ∧ 0 < left ∧ pulses + left = dispensePulses cfg grams + 1
  | .disable, pulses => 0 < grams ∧ pulses = dispensePulses cfg grams
  | .done .ok, pulses => 0 < grams ∧ pulses = dispensePulses cfg grams
  | .done .invalidArg, pulses => grams ≤ 0 ∧ pulses = 0
  | .done _, _ => False

/-- The pins at each place of the call, when nobody else touches them. -/
def PinsOk (m : Motor) : DispenserPc → Motor → Prop
  | .check, motor => motor = m
  | .enable, _ => True
  | .rotate, motor => motor.en = false
  | .pulseHigh _, motor => motor.en = false ∧ motor.dir = true
  | .pulseLow _, motor => motor.en = false ∧ motor.dir = true
  | .disable, motor => motor.en = false
  | .done .ok, motor => motor.en = true
  | .done _, motor => motor = m

variable {cfg : MotorConfig} {grams : Int} {m motor : Motor} {d : DispenserPc}
  {pulses : Nat}

/-- At the head of the ramp's loop. -/
theorem pulsesOk_ramp {left : Nat} (hgrams : 0 < grams)
    (hsum : pulses + left = dispensePulses cfg grams) :
    PulsesOk cfg grams (.ramp left) pulses := by
  cases left with
  | zero => exact ⟨hgrams, hsum⟩
  | succ left => exact ⟨hgrams, Nat.succ_pos left, hsum⟩

/-- The pulses add up, whatever the pins are. -/
theorem PulsesOk.step (h : PulsesOk cfg grams d pulses) (motor : Motor) :
    PulsesOk cfg grams (dispenserStep cfg grams d motor).1
      (countPulse d pulses) := by
  cases d with
  | check =>
      simp only [dispenserStep]
      split
      · next hle => exact ⟨hle, h⟩
      · next hpos => exact ⟨by omega, h⟩
  | enable => exact h
  | rotate =>
      obtain ⟨hgrams, rfl⟩ := h
      simp only [dispenserStep]
      split
      · next hrpm =>
        refine ⟨hgrams, ?_⟩
        unfold dispensePulses
        rw [if_pos hrpm]
        rfl
      · next hrpm =>
        refine pulsesOk_ramp hgrams ?_
        unfold dispensePulses
        rw [if_neg hrpm, moveRampPulses_eq]
        exact Nat.zero_add _
  | pulseHigh left =>
      obtain ⟨hgrams, hpos, hsum⟩ := h
      refine ⟨hgrams, hpos, ?_⟩
      show pulses + 1 + left = _
      omega
  | pulseLow left =>
      obtain ⟨hgrams, hpos, hsum⟩ := h
      refine pulsesOk_ramp hgrams ?_
      show pulses + (left - 1) = _
      omega
  | disable => exact h
  | done err => exact h

/-- A call that has returned has issued its pulses, or has refused its
argument. -/
theorem PulsesOk.returned {err : EspErr} (h : PulsesOk cfg grams (.done err) pulses) :
    (err = .ok ∧ 0 < grams ∧ pulses = dispensePulses cfg grams)
      ∨ (err = .invalidArg ∧ grams ≤ 0 ∧ pulses = 0) := by
  cases err with
  | ok => exact .inl ⟨rfl, h⟩
  | invalidArg => exact .inr ⟨rfl, h⟩
  | fail | noMem => exact h.elim

/-- At the head of the ramp the pins stay. -/
theorem pinsOk_ramp (hen : motor.en = false) (hdir : motor.dir = true) (left : Nat) :
    PinsOk m (.ramp left) motor := by
  cases left with
  | zero => exact hen
  | succ left => exact ⟨hen, hdir⟩

/-- Each step leaves the pins as the next place has them. -/
theorem PinsOk.step (h : PinsOk m d motor) :
    PinsOk m (dispenserStep cfg grams d motor).1
      (dispenserStep cfg grams d motor).2 := by
  cases d with
  | check =>
      simp only [dispenserStep]
      split
      · exact h
      · trivial
  | enable => exact rfl
  | rotate =>
      simp only [dispenserStep]
      split
      · exact h
      · have hen : { motor with dir := true }.en = false := h
        exact pinsOk_ramp hen rfl _
  | pulseHigh left => exact h
  | pulseLow left =>
      have hen : { motor with step := false }.en = false := h.1
      exact pinsOk_ramp hen h.2 _
  | disable => exact rfl
  | done err => exact h

/-- Pulses come with the driver enabled and the direction set. -/
theorem PinsOk.pulsing (h : PinsOk m d motor) (hp : d.pulsing = true) :
    motor.en = false ∧ motor.dir = true := by
  cases d with
  | pulseHigh left => exact h
  | pulseLow left => exact h
  | check | enable | rotate | disable | done err => cases hp

/-- Both hold at every place of every call. -/
theorem after_ok (cfg : MotorConfig) (grams : Int) (m : Motor) (n : Nat) :
    PulsesOk cfg grams (Run.after cfg grams m n).pc (Run.after cfg grams m n).pulses
      ∧ PinsOk m (Run.after cfg grams m n).pc (Run.after cfg grams m n).motor := by
  induction n with
  | zero => exact ⟨rfl, rfl⟩
  | succ n ih => exact ⟨ih.1.step _, ih.2.step⟩

/-- The call returns. -/
theorem exists_done (cfg : MotorConfig) (grams : Int) (m : Motor) :
    ∃ n err, (Run.after cfg grams m n).pc = .done err := by
  suffices h : ∀ k n, (Run.after cfg grams m n).pc.rank cfg grams = k →
      ∃ n err, (Run.after cfg grams m n).pc = .done err from h _ 0 rfl
  intro k
  induction k using Nat.strongRecOn with
  | ind k ih =>
      rintro n rfl
      by_cases hdone : ∃ err, (Run.after cfg grams m n).pc = .done err
      · exact ⟨n, hdone⟩
      · have hd : ∀ err, (Run.after cfg grams m n).pc ≠ .done err := by
          intro err herr
          exact hdone ⟨err, herr⟩
        exact ih _ (dispenserStep_rank cfg grams _ (Run.after cfg grams m n).motor hd)
          (n + 1) rfl

-- =========================================================== the conversions

/-- `(int)v`; nothing where the conversion is undefined. -/
def toInt32 (v : Rat) : Option Int :=
  let t := CJson.toInt v
  if -2147483648 ≤ t ∧ t ≤ 2147483647 then some t else none

/-- `(uint32_t)r`; nothing where the conversion is undefined. -/
def toUint32 (r : Rat) : Option UInt32 :=
  let t := CJson.toInt r
  if 0 ≤ t ∧ t < UInt32.size then some (UInt32.ofNat t.toNat) else none

/-- `stepper_rotate(revolutions, rpm, ..)`: the periods it requests. -/
def stepperRotate (fl : Rounding 24) (revolutions : Rat) (rpm : UInt32) :
    Option (List UInt32) :=
  if rpm = 0 ∨ revolutions ≤ 0 then some []
  else
    (toUint32 (stepsOf fl revolutions)).map fun totalSteps =>
      (rotateSteps totalSteps rpm).periods

/-- `dispenser_run(grams)` with the configured grams per revolution and
RPM: the periods it requests. -/
def dispenserRun (fl : Rounding 24) (gramsPerRev : Nat) (rpm : UInt32) (grams : Int) :
    Option (List UInt32) :=
  if grams ≤ 0 then some []
  else
    let revolutions := revolutionsOf fl gramsPerRev grams
    stepperRotate fl (fl.round (revolutions / 4)) rpm

-- =========================================================== steps of the grams

/-- The steps of `grams` grams, with one division, one multiplication and
their roundings: 400 for each revolution. -/
def gramSteps (fl : Rounding 24) (gramsPerRev grams : Nat) : Nat :=
  ⌊2 * fl.round (200 * fl.round (fl.round grams / fl.round gramsPerRev))⌋.toNat

variable {fl : Rounding 24} {g n q : Nat} {rpm : UInt32}

/-- The revolutions of no negative grams are not negative. -/
theorem revolutionsOf_nonneg (fl : Rounding 24) (g : Nat) (hgrams : 0 ≤ grams) :
    0 ≤ revolutionsOf fl g grams := by
  have hgrams' : (0 : Rat) ≤ grams := by exact_mod_cast hgrams
  exact fl.round_nonneg (div_nonneg (fl.round_nonneg hgrams')
    (fl.round_nonneg (Nat.cast_nonneg g)))

/-- Some grams are some revolutions, and so is a quarter of them. -/
theorem quarter_pos (fl : Rounding 24) (hg : 1 ≤ g) (hgrams : 0 < grams) :
    0 < fl.round (revolutionsOf fl g grams / 4) := by
  have hg' : (0 : Rat) < g := by exact_mod_cast hg
  have hgrams' : (0 : Rat) < grams := by exact_mod_cast hgrams
  have hrevs : 0 < revolutionsOf fl g grams :=
    fl.round_pos (div_pos (fl.round_pos hgrams') (fl.round_pos hg'))
  exact fl.round_pos (by positivity)

/-- The factors 1/4 and 8 are not rounded. -/
theorem stepsOf_quarter (fl : Rounding 24) (g : Nat) (hgrams : 0 ≤ grams) :
    stepsOf fl (fl.round (revolutionsOf fl g grams / 4))
      = 2 * fl.round (200 * revolutionsOf fl g grams) := by
  have hrevs := revolutionsOf_nonneg fl g hgrams
  have hidem : fl.round (revolutionsOf fl g grams) = revolutionsOf fl g grams := by
    have hgrams' : (0 : Rat) ≤ grams := by exact_mod_cast hgrams
    exact fl.idem (div_nonneg (fl.round_nonneg hgrams')
      (fl.round_nonneg (Nat.cast_nonneg g)))
  generalize revolutionsOf fl g grams = r at hrevs hidem
  have hquarter : fl.round (r / 4) = r * 2 ^ (-2 : Int) := by
    rw [show r / 4 = r * 2 ^ (-2 : Int) by norm_num; ring, fl.scale, hidem]
  have hsteps : fl.round (r * 2 ^ (-2 : Int) * 200)
      = fl.round (200 * r) * 2 ^ (-2 : Int) := by
    rw [← fl.scale]
    congr 1
    ring
  have hround : fl.round (fl.round (200 * r)) = fl.round (200 * r) :=
    fl.idem (by positivity)
  rw [stepsOf, hquarter, hsteps,
    show fl.round (200 * r) * 2 ^ (-2 : Int) * 8 = fl.round (200 * r) * 2 ^ (1 : Int) by
      norm_num; ring,
    fl.scale, hround, zpow_one, mul_comm]

/-- What the call converts to `total_steps`. -/
theorem floor_stepsOf (fl : Rounding 24) (g : Nat) (hgrams : 0 ≤ grams) :
    ⌊stepsOf fl (fl.round (revolutionsOf fl g grams / 4))⌋.toNat
      = gramSteps fl g grams.toNat := by
  obtain ⟨n, rfl⟩ := Int.eq_ofNat_of_zero_le hgrams
  rw [stepsOf_quarter fl g hgrams]
  rfl

/-- These are the steps of the call. -/
theorem totalSteps_eq (cfg : MotorConfig) (hgrams : 0 ≤ grams) :
    totalSteps cfg grams = gramSteps cfg.float cfg.gramsPerRev grams.toNat :=
  floor_stepsOf cfg.float cfg.gramsPerRev hgrams

/-- Without rounding, 1600 for each four revolutions. -/
theorem gramSteps_exact (g n : Nat) : gramSteps .exact g n = n * 1600 / (4 * g) := by
  have hquot : (2 : Rat) * (200 * ((n : Rat) / g))
      = ((n * 1600 : Nat) : Rat) / ((4 * g : Nat) : Rat) := by
    push_cast
    ring
  show ⌊(2 : Rat) * (200 * ((n : Rat) / g))⌋.toNat = _
  rw [hquot, Rat.floor_natCast_div_natCast]
  rfl

/-- More grams are never fewer steps. -/
theorem gramSteps_mono (fl : Rounding 24) (g : Nat) {n n' : Nat} (h : n ≤ n') :
    gramSteps fl g n ≤ gramSteps fl g n' := by
  have hn : (0 : Rat) ≤ n := Nat.cast_nonneg n
  have hg := fl.round_nonneg (Nat.cast_nonneg g)
  have hgrams : fl.round n ≤ fl.round n' := fl.mono hn (by exact_mod_cast h)
  have hrevs := fl.mono (div_nonneg (fl.round_nonneg hn) hg)
    (div_le_div_of_nonneg_right hgrams hg)
  have hsteps := fl.mono (mul_nonneg (by norm_num : (0 : Rat) ≤ 200)
    (fl.round_nonneg (div_nonneg (fl.round_nonneg hn) hg)))
    (mul_le_mul_of_nonneg_left hrevs (by norm_num))
  exact Int.toNat_le_toNat (Int.floor_le_floor
    (mul_le_mul_of_nonneg_left hsteps (by norm_num)))

/-- Whole revolutions are not rounded. -/
theorem gramSteps_of_quot (hquot : fl.round n / fl.round g = q)
    (hq : 200 * q ≤ 2 ^ 24) : gramSteps fl g n = 400 * q := by
  have hrevs : fl.round (q : Rat) = q := fl.fixed (by omega)
  have hsteps : fl.round (200 * (q : Rat)) = ((200 * q : Nat) : Rat) := by
    rw [← fl.fixed hq]
    push_cast
    rfl
  rw [gramSteps, hquot, hrevs, hsteps,
    show (2 : Rat) * ((200 * q : Nat) : Rat) = ((400 * q : Nat) : Rat) by
      push_cast; ring,
    Int.floor_natCast, Int.toNat_natCast]

/-- Nor are the grams of some, in the range of whole numbers. -/
theorem gramSteps_mul (fl : Rounding 24) (hg : 1 ≤ g) (h : q * g ≤ 2 ^ 24)
    (hq : 200 * q ≤ 2 ^ 24) : gramSteps fl g (q * g) = 400 * q := by
  have hg' : (g : Rat) ≠ 0 := by
    have : (0 : Rat) < g := by exact_mod_cast hg
    exact ne_of_gt this
  refine gramSteps_of_quot ?_ hq
  by_cases hzero : q = 0
  · subst hzero
    rw [Nat.zero_mul, fl.fixed (Nat.zero_le _), Nat.cast_zero, zero_div]
  · rw [fl.fixed h, fl.fixed (Nat.le_trans (Nat.le_mul_of_pos_left g (by omega)) h),
      Nat.cast_mul, mul_div_cancel_right₀ _ hg']

/-- The grams of one revolution make a quarter of its steps. -/
theorem gramSteps_self (fl : Rounding 24) (hg : 1 ≤ g) : gramSteps fl g g = 400 := by
  have hpos : 0 < fl.round g := fl.round_pos (by exact_mod_cast hg)
  refine gramSteps_of_quot (q := 1) ?_ (by norm_num)
  rw [div_self (ne_of_gt hpos), Nat.cast_one]

/-- In single precision 2.1 revolutions are a step short of 840. -/
example : gramSteps .single 10 21 = 839 ∧ gramSteps .exact 10 21 = 840 := by
  decide +kernel

/-- A normal number of single precision. -/
def Normal (x : Rat) : Prop := Rounding.Between (-126) 127 x

/-- No operation on the way leaves the normal numbers, so that their
bounds need no place in the rounding. -/
theorem floats_normal (fl : Rounding 24) (hg : 1 ≤ g) (hg' : g < 2 ^ 31)
    (hgrams : 0 < grams) (hgrams' : grams < 2 ^ 31) :
    Normal (fl.round grams) ∧ Normal (fl.round g) ∧ Normal (revolutionsOf fl g grams)
      ∧ Normal (fl.round (revolutionsOf fl g grams / 4))
      ∧ Normal (fl.round (fl.round (revolutionsOf fl g grams / 4) * 200))
      ∧ Normal (stepsOf fl (fl.round (revolutionsOf fl g grams / 4))) := by
  have hint : ∀ n : Int, 0 < n → n < 2 ^ 31 → Rounding.Between 0 31 (n : Rat) := by
    intro n hpos hlt
    refine ⟨?_, ?_⟩
    · rw [zpow_zero]
      exact_mod_cast hpos
    · exact_mod_cast le_of_lt hlt
  have hn := (hint grams hgrams hgrams').round fl
  have hd := (hint g (by omega) (by exact_mod_cast hg')).round fl
  rw [Int.cast_natCast] at hd
  have hrevs : Rounding.Between (-31) 31 (revolutionsOf fl g grams) := by
    have hquot := hn.mul hd.inv
    rw [← div_eq_mul_inv] at hquot
    exact hquot.round fl
  have hquarter : Rounding.Between (-33) 29 (fl.round (revolutionsOf fl g grams / 4)) := by
    have hfour : Rounding.Between (-2) (-2) (4 : Rat)⁻¹ := by
      constructor <;> norm_num
    have hquot := hrevs.mul hfour
    rw [← div_eq_mul_inv] at hquot
    exact hquot.round fl
  have hfull : Rounding.Between (-26) 37
      (fl.round (fl.round (revolutionsOf fl g grams / 4) * 200)) := by
    have hturn : Rounding.Between 7 8 (200 : Rat) := by
      constructor <;> norm_num
    exact (hquarter.mul hturn).round fl
  have hsteps : Rounding.Between (-23) 40
      (stepsOf fl (fl.round (revolutionsOf fl g grams / 4))) := by
    have hmicro : Rounding.Between 3 3 (8 : Rat) := by
      constructor <;> norm_num
    exact (hfull.mul hmicro).round fl
  exact ⟨hn.mono (by omega) (by omega), hd.mono (by omega) (by omega),
    hrevs.mono (by omega) (by omega), hquarter.mono (by omega) (by omega),
    hfull.mono (by omega) (by omega), hsteps.mono (by omega) (by omega)⟩

-- ================================================================ the requests

/-- The conversion to an integer cuts off, which above zero is the floor. -/
theorem toInt_eq_floor {r : Rat} (h : 0 ≤ r) : CJson.toInt r = ⌊r⌋ := by
  unfold CJson.toInt
  rw [Int.tdiv_eq_ediv_of_nonneg (Rat.num_nonneg.mpr h)]
  exact (Rat.floor_def r).symm

/-- Only the upper bound of the conversion counts. -/
theorem toUint32_of_nonneg {r : Rat} (h : 0 ≤ r) :
    toUint32 r
      = if ⌊r⌋.toNat < UInt32.size then some (UInt32.ofNat ⌊r⌋.toNat) else none := by
  have hfloor : 0 ≤ ⌊r⌋ := Int.floor_nonneg.mpr h
  unfold toUint32
  dsimp only
  rw [toInt_eq_floor h]
  by_cases hlt : ⌊r⌋.toNat < UInt32.size
  · rw [if_pos ⟨hfloor, by omega⟩, if_pos hlt]
  · rw [if_neg fun hboth => hlt (by omega), if_neg hlt]

/-- What a call for some grams requests. -/
theorem dispenserRun_of_pos (fl : Rounding 24) (hg : 1 ≤ g) (hrpm : rpm ≠ 0)
    (hgrams : 0 < grams) :
    dispenserRun fl g rpm grams
      = if gramSteps fl g grams.toNat < UInt32.size then
          some (rotateSteps (UInt32.ofNat (gramSteps fl g grams.toNat)) rpm).periods
        else none := by
  have hpos := quarter_pos fl hg hgrams
  have hrevs : ¬ (rpm = 0 ∨ fl.round (revolutionsOf fl g grams / 4) ≤ 0) := by
    rintro (h | h)
    · exact hrpm h
    · exact absurd hpos (not_lt.mpr h)
  have hsteps : 0 ≤ stepsOf fl (fl.round (revolutionsOf fl g grams / 4)) :=
    fl.round_nonneg (mul_nonneg (fl.round_nonneg (by positivity)) (by norm_num))
  unfold dispenserRun stepperRotate
  dsimp only
  rw [if_neg (by omega), if_neg hrevs, toUint32_of_nonneg hsteps,
    floor_stepsOf fl g (Int.le_of_lt hgrams)]
  split <;> rfl

/-- A machine number that is not zero is at least one. -/
theorem one_le_of_ne_zero (h : rpm ≠ 0) : 1 ≤ rpm := by
  refine UInt32.le_iff_toNat_le.mpr (Nat.pos_of_ne_zero fun hzero => h ?_)
  exact UInt32.toNat_inj.mp hzero

/-- What a call that stays in range requests: nothing, or what the steps
of its grams make. -/
theorem dispenserRun_cases (hg : 1 ≤ g) {periods : List UInt32}
    (h : dispenserRun fl g rpm grams = some periods) :
    (periods = [] ∧ (rpm = 0 ∨ grams ≤ 0))
      ∨ (rpm ≠ 0 ∧ 0 < grams ∧ gramSteps fl g grams.toNat < UInt32.size
        ∧ periods
          = (rotateSteps (UInt32.ofNat (gramSteps fl g grams.toNat)) rpm).periods) := by
  by_cases hgrams : grams ≤ 0
  · unfold dispenserRun at h
    rw [if_pos hgrams] at h
    exact .inl ⟨(Option.some.inj h).symm, .inr hgrams⟩
  · by_cases hrpm : rpm = 0
    · unfold dispenserRun stepperRotate at h
      rw [if_neg hgrams] at h
      dsimp only at h
      rw [if_pos (Or.inl hrpm)] at h
      exact .inl ⟨(Option.some.inj h).symm, .inl hrpm⟩
    · have hpos : 0 < grams := by omega
      rw [dispenserRun_of_pos fl hg hrpm hpos] at h
      split at h
      · next hlt => exact .inr ⟨hrpm, hpos, hlt, (Option.some.inj h).symm⟩
      · cases h

/-- Without a gram there is no step. -/
theorem gramSteps_nonpos (fl : Rounding 24) (g : Nat) (h : grams ≤ 0) :
    gramSteps fl g grams.toNat = 0 := by
  have hzero : fl.round ((0 : Nat) : Rat) = (0 : Nat) := fl.fixed (Nat.zero_le _)
  rw [Nat.cast_zero] at hzero
  rw [Int.toNat_of_nonpos h, gramSteps, Nat.cast_zero, hzero, zero_div, hzero,
    mul_zero, hzero, mul_zero, Int.floor_zero]
  rfl

/-- How many periods a call requests. -/
theorem length_dispenserRun (hg : 1 ≤ g) {periods : List UInt32}
    (h : dispenserRun fl g rpm grams = some periods) :
    periods.length = if rpm = 0 then 0 else gramSteps fl g grams.toNat := by
  rcases dispenserRun_cases hg h with ⟨rfl, hzero | hgrams⟩ | ⟨hrpm, -, hlt, rfl⟩
  · rw [if_pos hzero]
    rfl
  · rw [gramSteps_nonpos fl g hgrams, ite_self]
    rfl
  · rw [if_neg hrpm, length_rotateSteps (one_le_of_ne_zero hrpm),
      UInt32.toNat_ofNat_of_lt' hlt]

/-- The same number of pulses as in the call executed step by step. -/
theorem length_eq_dispensePulses (hg : 1 ≤ g) {periods : List UInt32} (finish : Int)
    (hgrams : 0 < grams) (h : dispenserRun fl g rpm grams = some periods) :
    periods.length = dispensePulses ⟨g, rpm.toNat, finish, fl⟩ grams := by
  have hzero : rpm.toNat = 0 ↔ rpm = 0 := UInt32.toNat_inj (b := 0)
  rw [length_dispenserRun hg h]
  unfold dispensePulses
  simp only [hzero]
  rw [totalSteps_eq _ (Int.le_of_lt hgrams)]

-- ==================================================== every run is a smooth one

/-- `CONFIG_FEED_DISPENSE_TIMEOUT_MS` is kept, "Safety cut-off for the
dispense motor": the periods of a call add up to no more. -/
def WithinTimeout (timeoutMs : Nat) (periods : List UInt32) : Prop :=
  (periods.map UInt32.toNat).sum ≤ 1000 * timeoutMs

/-- The time of a rotation: each step of the ramps costs half a target
period more than a cruise step, the truncation cancels. -/
theorem sum_rotateSteps (hrpm : 1 ≤ rpm) (totalSteps : UInt32) :
    ((rotateSteps totalSteps rpm).periods.map UInt32.toNat).sum
      = (totalSteps.toNat + rampSteps totalSteps.toNat)
        * (targetPeriodUs rpm).toNat := by
  have hle := rampSteps_le totalSteps.toNat
  have hsum : 2 * rampSteps totalSteps.toNat
      + (totalSteps.toNat - 2 * rampSteps totalSteps.toNat) = totalSteps.toNat := by
    omega
  rw [rotateSteps_periods hrpm, Trapezoid.sum_periods, hsum, Nat.add_mul]

/-- The time of a call. -/
theorem sum_dispenserRun (hg : 1 ≤ g) {periods : List UInt32}
    (h : dispenserRun fl g rpm grams = some periods) :
    (periods.map UInt32.toNat).sum
      = if rpm = 0 then 0
        else (gramSteps fl g grams.toNat + rampSteps (gramSteps fl g grams.toNat))
          * max 800 (60000000 / (rpm.toNat * 1600)) := by
  rcases dispenserRun_cases hg h with ⟨rfl, hzero | hgrams⟩ | ⟨hrpm, -, hlt, rfl⟩
  · rw [if_pos hzero]
    rfl
  · rw [gramSteps_nonpos fl g hgrams]
    simp [rampSteps]
  · rw [if_neg hrpm, sum_rotateSteps (one_le_of_ne_zero hrpm),
      UInt32.toNat_ofNat_of_lt' hlt, targetPeriodUs_toNat (one_le_of_ne_zero hrpm)]

/-- For every grams value and configuration, in single precision: the
motor runs no longer than the timeout exactly when the steps of the
grams, and those of one ramp once more, at the period of the RPM take no
longer. -/
theorem motor_time_iff (hg : 1 ≤ g) (timeoutMs : Nat) {periods : List UInt32}
    (h : dispenserRun .single g rpm grams = some periods) :
    WithinTimeout timeoutMs periods
      ↔ rpm = 0
        ∨ (gramSteps .single g grams.toNat + rampSteps (gramSteps .single g grams.toNat))
          * max 800 (60000000 / (rpm.toNat * 1600)) ≤ 1000 * timeoutMs := by
  unfold WithinTimeout
  rw [sum_dispenserRun hg h]
  by_cases hrpm : rpm = 0
  · simp [hrpm]
  · rw [if_neg hrpm]
    exact ⟨.inr, fun hor => hor.resolve_left hrpm⟩

/-- A call for the grams of `q` revolutions, when they fit. -/
theorem exists_periods (q : Nat) (rpm : UInt32) (hg : 1 ≤ g) (hq : 1 ≤ q)
    (hrpm : rpm ≠ 0) (h : q * g ≤ 2 ^ 24) (hq' : 200 * q ≤ 2 ^ 24) :
    ∃ periods, dispenserRun fl g rpm (q * g : Nat) = some periods := by
  have hsteps : gramSteps fl g (q * g) < UInt32.size := by
    rw [gramSteps_mul fl hg h hq']
    simp only [UInt32.size]
    omega
  have hpos : 0 < q * g := Nat.mul_pos hq hg
  rw [dispenserRun_of_pos fl hg hrpm (by exact_mod_cast hpos), Int.toNat_natCast,
    if_pos hsteps]
  exact ⟨_, rfl⟩

/-- At 5 g a revolution, 10 RPM and 15 s, 25 g are within the time. -/
theorem motor_time_25 :
    ∃ periods, dispenserRun .single 5 10 25 = some periods
      ∧ WithinTimeout 15000 periods := by
  obtain ⟨periods, h⟩ : ∃ periods, dispenserRun .single 5 10 (5 * 5 : Nat) = some periods :=
    exists_periods 5 10 (by decide) (by decide) (by decide) (by decide) (by decide)
  refine ⟨periods, h, (motor_time_iff (by decide) 15000 h).mpr (.inr ?_)⟩
  show (gramSteps .single 5 (5 * 5) + rampSteps (gramSteps .single 5 (5 * 5))) * _ ≤ _
  rw [gramSteps_mul .single (by decide) (by decide) (by decide)]
  decide

/-- And 100 g take more than 31 s. -/
theorem motor_time_100 :
    ∃ periods, dispenserRun .single 5 10 100 = some periods
      ∧ (periods.map UInt32.toNat).sum = 31500000
      ∧ ¬ WithinTimeout 15000 periods := by
  obtain ⟨periods, h⟩ : ∃ periods, dispenserRun .single 5 10 (20 * 5 : Nat) = some periods :=
    exists_periods 20 10 (by decide) (by decide) (by decide) (by decide) (by decide)
  have hsum : (periods.map UInt32.toNat).sum = 31500000 := by
    rw [sum_dispenserRun (by decide) h, if_neg (by decide), Int.toNat_natCast,
      gramSteps_mul .single (by decide) (by decide) (by decide)]
    decide
  refine ⟨periods, h, hsum, fun hle => ?_⟩
  have hle' : (periods.map UInt32.toNat).sum ≤ 1000 * 15000 := hle
  omega

end SitNChow
