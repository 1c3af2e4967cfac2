/-
The stepper driver (dispenser.c): the pins it shares with the manual
button, and `dispenser_run` as a task executes it, one pin write at a
time.

# Grain

Between two writes to a pin other tasks may run, so `dispenser_run` is a
program counter: the grams check, EN low, DIR and the ramp of STEP
pulses, EN high. The ramp's loops emit `moveRampPulses` pulses; delays
are not steps.

# Floats

The revolutions and the steps are worked out in `float`. Each operation
is the exact one, rounded; how it is rounded is part of the configuration,
since most of what holds of the motor holds for every way to round.
-/
import SitNChow.Kit.Line
import SitNChow.Kit.Rounding

namespace SitNChow

open Kit

-- ================================================================ pins

/-- The levels of EN (active low), DIR and STEP. -/
structure Motor where
  en : Bool
  dir : Bool
  step : Bool
deriving DecidableEq

/-- The levels `dispenser_init` sets: driver disabled. -/
def Motor.init : Motor := { en := true, dir := false, step := false }

/-- The driver is enabled: EN is low. -/
def Motor.enabled (m : Motor) : Bool := !m.en

/-- The configured motor constants: `CONFIG_DISPENSER_GRAMS_PER_REV`,
`CONFIG_DISPENSER_RPM` and `CONFIG_MANUAL_BUTTON_FINISH_GRAMS`, and the
arithmetic of `float`. -/
structure MotorConfig where
  gramsPerRev : Nat
  rpm : Nat
  finishGrams : Int
  float : Rounding 24

/-- The defaults of Kconfig.projbuild, in single precision. -/
def MotorConfig.default : MotorConfig :=
  { gramsPerRev := 10, rpm := 20, finishGrams := 10, float := .single }

/-- The `esp_err_t` values the firmware's own functions return. -/
inductive EspErr where
  | ok
  | fail
  | noMem
  | invalidArg
deriving DecidableEq

-- ============================================================ the ramp

/-- `(float)grams / (float)CONFIG_DISPENSER_GRAMS_PER_REV`. -/
def revolutionsOf (fl : Rounding 24) (gramsPerRev : Nat) (grams : Int) : Rat :=
  fl.round (fl.round grams / fl.round gramsPerRev)

/-- `revolutions * STEPS_PER_REV * MICROSTEPS`: 200 steps of 8 microsteps
a revolution. -/
def stepsOf (fl : Rounding 24) (revolutions : Rat) : Rat :=
  fl.round (fl.round (revolutions * 200) * 8)

/-- `total_steps` of `stepper_rotate(revolutions/4, ..)`. -/
def totalSteps (cfg : MotorConfig) (grams : Int) : Nat :=
  let revolutions := revolutionsOf cfg.float cfg.gramsPerRev grams
  ⌊stepsOf cfg.float (cfg.float.round (revolutions / 4))⌋.toNat

/-- The ramp length `stepper_rotate` asks for. -/
def rampSteps (totalSteps : Nat) : Nat :=
  if totalSteps < 1200 then totalSteps / 3 else 400

/-- The pulses of `stepper_move_ramp`: ramp up, cruise, ramp down. -/
def moveRampPulses (steps rampSteps : Nat) : Nat :=
  if steps = 0 then 0
  else
    let rampSteps := if rampSteps * 2 > steps then steps / 2 else rampSteps
    rampSteps + (steps - 2 * rampSteps) + rampSteps

/-- The ramp emits one pulse a step. -/
theorem moveRampPulses_eq (steps rampSteps : Nat) :
    moveRampPulses steps rampSteps = steps := by
  unfold moveRampPulses
  dsimp only
  split
  · omega
  · split <;> omega

-- ======================================================= dispenser_run

/-- Where a task is inside `dispenser_run`: the next thing it does.
`pulseHigh` and `pulseLow` carry the pulses still to emit. -/
inductive DispenserPc where
  | check
  | enable
  | rotate
  | pulseHigh (left : Nat)
  | pulseLow (left : Nat)
  | disable
  | done (err : EspErr)
deriving DecidableEq

/-- The head of the ramp's loop: another pulse, or on to EN high. -/
def DispenserPc.ramp : Nat → DispenserPc
  | 0 => .disable
  | left + 1 => .pulseHigh (left + 1)

/-- One step of `dispenser_run(grams)`. -/
def dispenserStep (cfg : MotorConfig) (grams : Int) :
    DispenserPc → Motor → DispenserPc × Motor
  | .check, m => (if grams ≤ 0 then .done .invalidArg else .enable, m)
  | .enable, m => (.rotate, { m with en := false })
  | .rotate, m =>
      if cfg.rpm = 0 then (.disable, m)
      else
        let steps := totalSteps cfg grams
        (.ramp (moveRampPulses steps (rampSteps steps)), { m with dir := true })
  | .pulseHigh left, m => (.pulseLow left, { m with step := true })
  | .pulseLow left, m => (.ramp (left - 1), { m with step := false })
  | .disable, m => (.done .ok, { m with en := true })
  | .done err, m => (.done err, m)

/-- Between EN low and EN high. -/
def DispenserPc.driving : DispenserPc → Bool
  | .rotate | .pulseHigh _ | .pulseLow _ | .disable => true
  | .check | .enable | .done _ => false

/-- About to switch STEP. -/
def DispenserPc.pulsing : DispenserPc → Bool
  | .pulseHigh _ | .pulseLow _ => true
  | _ => false

/-- The driver is enabled during the pulses. -/
@[simp] theorem DispenserPc.ramp_driving (left : Nat) :
    (DispenserPc.ramp left).driving = true := by
  cases left <;> rfl

/-- Pulses come only while the driver is enabled. -/
theorem DispenserPc.driving_of_pulsing {d : DispenserPc}
    (h : d.pulsing = true) : d.driving = true := by
  cases d <;> simp_all [pulsing, driving]

/-- One step of `dispenser_run` takes, drops or keeps the enable
line. -/
theorem dispenserStep_move (cfg : MotorConfig) (grams : Int)
    (d : DispenserPc) (m : Motor) :
    Line.Move d.driving (dispenserStep cfg grams d m).1.driving
      m.enabled (dispenserStep cfg grams d m).2.enabled := by
  cases d with
  | check =>
      simp only [dispenserStep]
      split <;> exact .keep
  | enable => exact .take
  | rotate =>
      simp only [dispenserStep]
      split
      · exact .keep
      · rw [DispenserPc.ramp_driving]
        exact .keep
  | pulseHigh left => exact .keep
  | pulseLow left =>
      show Line.Move true (DispenserPc.ramp (left - 1)).driving _ _
      rw [DispenserPc.ramp_driving]
      exact .keep
  | disable => exact .drop
  | done err => exact .keep

/-- `dispenser_run` starts driving from its EN-low write only. -/
theorem dispenserStep_starts (cfg : MotorConfig) (grams : Int)
    (d : DispenserPc) (m : Motor) (hd : d.driving = false)
    (hd' : (dispenserStep cfg grams d m).1.driving = true) : d = .enable := by
  cases d with
  | check =>
      simp only [dispenserStep] at hd'
      split at hd' <;> cases hd'
  | enable => rfl
  | rotate | pulseHigh left | pulseLow left | disable => cases hd
  | done err => cases hd'

-- ========================================================= the way out

/-- The steps `dispenser_run` still has to its return. -/
def DispenserPc.rank (cfg : MotorConfig) (grams : Int) : DispenserPc → Nat
  | .check => 2 * totalSteps cfg grams + 6
  | .enable => 2 * totalSteps cfg grams + 5
  | .rotate => 2 * totalSteps cfg grams + 4
  | .pulseHigh left => 2 * left + 3
  | .pulseLow left => 2 * left + 2
  | .disable => 1
  | .done _ => 0

/-- The head of the ramp's loop is no farther than the pulse before. -/
theorem DispenserPc.rank_ramp (cfg : MotorConfig) (grams : Int) (left : Nat) :
    (DispenserPc.ramp left).rank cfg grams ≤ 2 * left + 3 := by
  cases left with
  | zero => show (1 : Nat) ≤ _; omega
  | succ left => exact Nat.le_refl _

/-- Every step comes closer to the return. -/
theorem dispenserStep_rank (cfg : MotorConfig) (grams : Int) (d : DispenserPc)
    (m : Motor) (hd : ∀ err, d ≠ .done err) :
    (dispenserStep cfg grams d m).1.rank cfg grams < d.rank cfg grams := by
  cases d with
  | check =>
      simp only [dispenserStep]
      split <;> simp [DispenserPc.rank]
  | enable => simp [dispenserStep, DispenserPc.rank]
  | rotate =>
      simp only [dispenserStep]
      split
      · simp [DispenserPc.rank]
      · rw [moveRampPulses_eq]
        exact Nat.lt_of_le_of_lt (DispenserPc.rank_ramp ..) (Nat.lt_succ_self _)
  | pulseHigh left => simp [dispenserStep, DispenserPc.rank]
  | pulseLow left =>
      show (DispenserPc.ramp (left - 1)).rank cfg grams < 2 * left + 2
      cases left with
      | zero => show (1 : Nat) < _; omega
      | succ left =>
          have := DispenserPc.rank_ramp cfg grams left
          rw [Nat.add_sub_cancel]
          omega
  | disable => simp [dispenserStep, DispenserPc.rank]
  | done err => exact absurd rfl (hd err)

end SitNChow
