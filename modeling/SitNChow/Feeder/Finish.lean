/-
Where the auger stops after a manual feed (manual_button.c): the steps
taken while the button is held, and those of the `dispenser_run` that is
to complete the revolution.

`Press` counts both for the press the button task is in. The pulses of
`dispenser_run` add up at every place of it (`PulsesOk`), so at the end of
a press the finish has made its own number of steps, which does not depend
on the steps before it (`released_whole_iff`).
-/
import SitNChow.Dispenser
import SitNChow.Feeder.Model

namespace SitNChow

/-- The button task on the way: where it is, the steps it has taken in
this press (`steps_taken`), and the pulses of the finish. -/
structure Press where
  pc : ButtonPc
  held : Nat
  finished : Nat

/-- One step of the button task; a press starts both counts again. The
pins are as the step finds them, since other tasks may move them. -/
def Press.step (cfg : Config) (p : Press) (x : Bool × Motor) : Press where
  pc := (buttonStep cfg x.1 p.pc x.2).1
  held :=
    match p.pc with
    | .dir => 0
    | .stepHigh => p.held + 1
    | _ => p.held
  finished :=
    match p.pc with
    | .dir => 0
    | .finish d => countPulse d p.finished
    | _ => p.finished

/-- The button task after any number of steps, from the top of its
loop. -/
def Press.after (cfg : Config) (xs : List (Bool × Motor)) : Press :=
  xs.foldl (Press.step cfg) ⟨.idle, 0, 0⟩

/-- The pulses of the finish at each place of a press. -/
def Press.Ok (cfg : Config) (p : Press) : Prop :=
  match p.pc with
  | .idle | .debounce | .dir => True
  | .enable | .hold | .stepHigh | .stepLow | .disable => p.finished = 0
  | .finish d => PulsesOk cfg.motor cfg.motor.finishGrams d p.finished
  | .released => ∃ err, PulsesOk cfg.motor cfg.motor.finishGrams (.done err) p.finished

variable {cfg : Config} {p : Press}

theorem Press.Ok.step (h : p.Ok cfg) (x : Bool × Motor) :
    (p.step cfg x).Ok cfg := by
  obtain ⟨pc, held, finished⟩ := p
  obtain ⟨pressed, m⟩ := x
  cases pc with
  | idle => cases pressed <;> trivial
  | debounce => cases pressed <;> trivial
  | dir => rfl
  | enable => exact h
  | hold => cases pressed <;> exact h
  | stepHigh => exact h
  | stepLow => exact h
  | disable => exact h
  | finish d =>
      have hpulses : PulsesOk cfg.motor cfg.motor.finishGrams d finished := h
      cases d with
      | done err => exact ⟨err, hpulses⟩
      | check | enable | rotate | pulseHigh left | pulseLow left | disable =>
          exact hpulses.step m
  | released =>
      cases pressed with
      | false => trivial
      | true => exact h

theorem press_ok (cfg : Config) (xs : List (Bool × Motor)) :
    (Press.after cfg xs).Ok cfg := by
  induction xs using List.reverseRecOn with
  | nil => trivial
  | append_singleton xs x ih =>
      unfold Press.after
      rw [List.foldl_append]
      exact ih.step x

/-- A quarter of a revolution. -/
theorem dispensePulses_finish {motor : MotorConfig} (hg : 1 ≤ motor.gramsPerRev)
    (hrpm : motor.rpm ≠ 0) : dispensePulses motor motor.gramsPerRev = 400 := by
  unfold dispensePulses
  rw [if_neg hrpm, totalSteps_eq motor (Int.natCast_nonneg _), Int.toNat_natCast]
  exact gramSteps_self motor.float hg

/-- At the end of a press the finish has made a quarter of a
revolution. -/
theorem finished_eq (hg : 1 ≤ cfg.motor.gramsPerRev)
    (hfinish : cfg.motor.finishGrams = cfg.motor.gramsPerRev)
    {xs : List (Bool × Motor)} (h : (Press.after cfg xs).pc = .released) :
    (Press.after cfg xs).finished = if cfg.motor.rpm = 0 then 0 else 400 := by
  have hok := press_ok cfg xs
  unfold Press.Ok at hok
  rw [h] at hok
  obtain ⟨err, hpulses⟩ := hok
  rcases hpulses.returned with ⟨-, -, heq⟩ | ⟨-, hneg, -⟩
  · rw [heq, hfinish]
    by_cases hrpm : cfg.motor.rpm = 0
    · rw [if_pos hrpm]
      exact if_pos hrpm
    · rw [if_neg hrpm]
      exact dispensePulses_finish hg hrpm
  · omega

/-- In every run of the button task, with the finish set to the grams of
a revolution: a press ends on a whole revolution exactly when the button
was let go a quarter before one, or at RPM 0, where the finish does not
turn, on one. -/
theorem released_whole_iff (cfg : Config) (hg : 1 ≤ cfg.motor.gramsPerRev)
    (hfinish : cfg.motor.finishGrams = cfg.motor.gramsPerRev)
    (xs : List (Bool × Motor)) (h : (Press.after cfg xs).pc = .released) :
    1600 ∣ (Press.after cfg xs).held + (Press.after cfg xs).finished
      ↔ (Press.after cfg xs).held % 1600 = if cfg.motor.rpm = 0 then 0 else 1200 := by
  rw [finished_eq hg hfinish h]
  by_cases hrpm : cfg.motor.rpm = 0
  · rw [if_pos hrpm, if_pos hrpm]
    omega
  · rw [if_neg hrpm, if_neg hrpm]
    omega

-- ============================================================= every hold

/-- The button can be held for any number of steps. -/
theorem exists_held (cfg : Config) (n : Nat) :
    ∃ xs, Press.after cfg xs = ⟨.hold, n, 0⟩ := by
  induction n with
  | zero =>
      exact ⟨List.replicate 4 (true, Motor.init), rfl⟩
  | succ n ih =>
      obtain ⟨xs, hxs⟩ := ih
      refine ⟨xs ++ List.replicate 3 (true, Motor.init), ?_⟩
      unfold Press.after at hxs ⊢
      rw [List.foldl_append, hxs]
      rfl

/-- The finish comes to its end, and leaves the count of the hold. -/
theorem exists_released (cfg : Config) (k : Nat) :
    ∀ (p : Press) (d : DispenserPc), p.pc = .finish d →
      d.rank cfg.motor cfg.motor.finishGrams = k →
      ∃ ys : List (Bool × Motor), (ys.foldl (Press.step cfg) p).pc = .released
        ∧ (ys.foldl (Press.step cfg) p).held = p.held := by
  induction k using Nat.strongRecOn with
  | ind k ih =>
      rintro ⟨pc, held, finished⟩ d rfl rfl
      by_cases hdone : ∃ err, d = .done err
      · obtain ⟨err, rfl⟩ := hdone
        exact ⟨[(false, Motor.init)], rfl, rfl⟩
      · have hd : ∀ err, d ≠ .done err := by
          intro err herr
          exact hdone ⟨err, herr⟩
        obtain ⟨ys, hpc, hheld⟩ := ih _
          (dispenserStep_rank cfg.motor cfg.motor.finishGrams d Motor.init hd)
          (Press.step cfg ⟨.finish d, held, finished⟩ (false, Motor.init)) _
          (by
            cases d with
            | done err => exact absurd rfl (hd err)
            | check | enable | rotate | pulseHigh left | pulseLow left | disable => rfl)
          rfl
        exact ⟨(false, Motor.init) :: ys, hpc, hheld⟩

/-- A press with any number of steps. -/
theorem exists_press (cfg : Config) (n : Nat) :
    ∃ xs, (Press.after cfg xs).pc = .released ∧ (Press.after cfg xs).held = n := by
  obtain ⟨xs, hxs⟩ := exists_held cfg n
  obtain ⟨ys, hpc, hheld⟩ := exists_released cfg _ ⟨.finish .check, n, 0⟩ .check rfl rfl
  refine ⟨xs ++ (false, Motor.init) :: (false, Motor.init) :: ys, ?_⟩
  unfold Press.after at hxs ⊢
  rw [List.foldl_append, hxs]
  exact ⟨hpc, hheld⟩

/-- Three quarters of a revolution are completed. -/
theorem released_whole_1200 :
    ∃ xs, (Press.after .default xs).pc = .released
      ∧ (Press.after .default xs).held = 1200
      ∧ 1600 ∣ (Press.after .default xs).held + (Press.after .default xs).finished := by
  obtain ⟨xs, hpc, hheld⟩ := exists_press .default 1200
  refine ⟨xs, hpc, hheld, ?_⟩
  refine (released_whole_iff .default (by decide) rfl xs hpc).mpr ?_
  rw [hheld]
  rfl

/-- After a whole revolution the auger stops a quarter further. -/
theorem released_quarter_over :
    ∃ xs, (Press.after .default xs).pc = .released
      ∧ (Press.after .default xs).held = 1600
      ∧ (Press.after .default xs).finished = 400
      ∧ ¬ 1600 ∣ (Press.after .default xs).held + (Press.after .default xs).finished := by
  obtain ⟨xs, hpc, hheld⟩ := exists_press .default 1600
  have hfinished : (Press.after .default xs).finished = 400 :=
    finished_eq (by decide) rfl hpc
  refine ⟨xs, hpc, hheld, hfinished, ?_⟩
  rw [hheld, hfinished]
  decide

end SitNChow
