/-
Who drives the motor. Three tasks write the EN, DIR and STEP pins: the
two feed tasks inside `dispenser_run`, and the button task in its hold
loop and its own `dispenser_run`.

The feed mutex keeps the two workflows apart, and that is all it does:
the button task never asks for it. `OneDriver` is the exclusion the
pins need, `MotorFree` the condition on the order of steps under which a
run has it. `one_driver_iff` says the condition is exact, and
`feeds_one_driver` that without the button it is always met.
-/
import SitNChow.Feeder.Steps

namespace SitNChow

open Kit

variable {cfg : Config} {s s' : State}

-- ============================================================ drivers

/-- The parties that drive the motor. -/
inductive Driver where
  | feed (t : FeedTask)
  | button
deriving DecidableEq

/-- Between EN low and EN high. -/
def WfPc.driving : WfPc → Bool
  | .dispense d => d.driving
  | _ => false

/-- About to switch STEP. -/
def WfPc.pulsing : WfPc → Bool
  | .dispense d => d.pulsing
  | _ => false

/-- About to write EN low. -/
def WfPc.enabling : WfPc → Bool
  | .dispense .enable => true
  | _ => false

/-- Between EN low and EN high, in the hold loop or in the finishing
`dispenser_run`. -/
def ButtonPc.driving : ButtonPc → Bool
  | .hold | .stepHigh | .stepLow | .disable => true
  | .finish d => d.driving
  | _ => false

def ButtonPc.pulsing : ButtonPc → Bool
  | .stepHigh | .stepLow => true
  | .finish d => d.pulsing
  | _ => false

def ButtonPc.enabling : ButtonPc → Bool
  | .enable | .finish .enable => true
  | _ => false

/-- The party is between EN low and EN high. -/
def State.drives (s : State) : Driver → Bool
  | .feed t => (s.task t).inWf WfPc.driving
  | .button => s.button.driving

/-- The party is about to switch STEP. -/
def State.pulses (s : State) : Driver → Bool
  | .feed t => (s.task t).inWf WfPc.pulsing
  | .button => s.button.pulsing

/-- The party is about to write EN low. -/
def State.enables (s : State) : Driver → Bool
  | .feed t => (s.task t).inWf WfPc.enabling
  | .button => s.button.enabling

/-- At most one party is between EN low and EN high, and a party at a
STEP pulse sees EN low. -/
def OneDriver (s : State) : Prop :=
  Line.Sole s.drives ∧ ∀ p, s.pulses p = true → s.world.motor.en = false

/-- A step that writes EN low finds the other side not driving: a
workflow the button, the button every workflow. -/
def MotorFree (s : State) : Action → Prop
  | .feed t _ => s.enables (.feed t) = true → s.drives .button = false
  | .press _ =>
      s.enables .button = true → ∀ t, s.drives (.feed t) = false
  | _ => True

-- ====================================================== one step each

/-- A party at a pulse is driving. -/
theorem State.drives_of_pulses {p : Driver} (h : s.pulses p = true) :
    s.drives p = true := by
  cases p with
  | feed t =>
      simp only [pulses, drives] at h ⊢
      cases ht : s.task t with
      | feeding w =>
          rw [ht] at h
          obtain ⟨trig, sittingConfirmed, foodLow, pc⟩ := w
          cases pc with
          | dispense d => exact DispenserPc.driving_of_pulsing h
          | _ => cases h
      | _ =>
          rw [ht] at h
          cases h
  | button =>
      simp only [pulses, drives] at h ⊢
      cases hb : s.button with
      | stepHigh | stepLow => rfl
      | finish d =>
          rw [hb] at h
          exact DispenserPc.driving_of_pulsing h
      | _ =>
          rw [hb] at h
          cases h

/-- A workflow step takes, drops or keeps the enable line. -/
theorem wfStep_move (t : FeedTask) (o : Sensed) (w : Wf) (x : World) :
    Line.Move w.pc.driving
      ((afterWf (wfStep cfg t o w x).1).inWf WfPc.driving)
      x.motor.enabled (wfStep cfg t o w x).2.motor.enabled := by
  obtain ⟨trig, sittingConfirmed, foodLow, pc⟩ := w
  cases pc with
  | dispense d =>
      have hmove := dispenserStep_move cfg.motor trig.grams d x.motor
      cases d with
      | done err => exact .keep
      | _ => exact hmove
  | beep =>
      simp only [wfStep, afterWf, TaskPc.inWf]
      split <;> exact .keep
  | tofWait =>
      simp only [wfStep, afterWf, TaskPc.inWf]
      split <;> exact .keep
  | notifyDone =>
      simp only [wfStep, afterWf, TaskPc.inWf, World.pushNotification]
      split <;> split <;> exact .keep
  | notifyLow =>
      simp only [wfStep, afterWf, TaskPc.inWf, World.pushNotification]
      split <;> exact .keep
  | _ => exact .keep

/-- A workflow starts driving from its EN-low write only. -/
theorem wfStep_starts {t : FeedTask} {o : Sensed} {w : Wf} {x : World}
    (hw : w.pc.driving = false)
    (hw' : (afterWf (wfStep cfg t o w x).1).inWf WfPc.driving = true) :
    w.pc.enabling = true := by
  obtain ⟨trig, sittingConfirmed, foodLow, pc⟩ := w
  cases pc with
  | dispense d =>
      have hstarts := dispenserStep_starts cfg.motor trig.grams d x.motor
      cases d with
      | enable => rfl
      | done err => cases hw'
      | _ => cases hstarts hw hw'
  | beep =>
      simp only [wfStep, afterWf, TaskPc.inWf] at hw'
      split at hw' <;> cases hw'
  | tofWait =>
      simp only [wfStep, afterWf, TaskPc.inWf] at hw'
      split at hw' <;> cases hw'
  | notifyDone =>
      simp only [wfStep, afterWf, TaskPc.inWf] at hw'
      split at hw' <;> cases hw'
  | _ => cases hw'

/-- The EN-low write of a workflow starts driving. -/
theorem wfStep_enabling {t : FeedTask} {o : Sensed} {w : Wf} {x : World}
    (hw : w.pc.enabling = true) :
    w.pc.driving = false
      ∧ (afterWf (wfStep cfg t o w x).1).inWf WfPc.driving = true := by
  obtain ⟨trig, sittingConfirmed, foodLow, pc⟩ := w
  cases pc with
  | dispense d =>
      cases d with
      | enable => exact ⟨rfl, rfl⟩
      | _ => cases hw
  | _ => cases hw

/-- A button step takes, drops or keeps the enable line. -/
theorem buttonStep_move (pressed : Bool) (b : ButtonPc) (m : Motor) :
    Line.Move b.driving (buttonStep cfg pressed b m).1.driving
      m.enabled (buttonStep cfg pressed b m).2.enabled := by
  cases b with
  | enable => exact .take
  | disable => exact .drop
  | finish d =>
      have hmove := dispenserStep_move cfg.motor cfg.motor.finishGrams d m
      cases d with
      | done err => exact .keep
      | _ => exact hmove
  | dir | stepHigh | stepLow => exact .keep
  | _ => cases pressed <;> exact .keep

theorem buttonStep_starts {pressed : Bool} {b : ButtonPc} {m : Motor}
    (hb : b.driving = false)
    (hb' : (buttonStep cfg pressed b m).1.driving = true) :
    b.enabling = true := by
  cases b with
  | enable => rfl
  | finish d =>
      have hstarts := dispenserStep_starts cfg.motor cfg.motor.finishGrams d m
      cases d with
      | enable => rfl
      | done err => cases hb'
      | _ => cases hstarts hb hb'
  | idle | debounce | released => cases pressed <;> cases hb'
  | dir => cases hb'
  | _ => cases hb

theorem buttonStep_enabling {pressed : Bool} {b : ButtonPc} {m : Motor}
    (hb : b.enabling = true) :
    b.driving = false ∧ (buttonStep cfg pressed b m).1.driving = true := by
  cases b with
  | enable => exact ⟨rfl, rfl⟩
  | finish d =>
      cases d with
      | enable => exact ⟨rfl, rfl⟩
      | _ => cases hb
  | _ => cases hb

/-- What a step does to one party and the enable line: every other party
stays as it is, the party moves, it starts driving exactly when it was
about to write EN low. -/
structure Drives (s s' : State) (p : Driver) : Prop where
  other : ∀ q, q ≠ p → s'.drives q = s.drives q
  move : Line.Move (s.drives p) (s'.drives p) s.world.motor.enabled
    s'.world.motor.enabled
  starts : s.drives p = false → s'.drives p = true → s.enables p = true
  enabling : s.enables p = true → s.drives p = false ∧ s'.drives p = true

theorem drives_feed {t : FeedTask} {o : Sensed}
    (happ : s.feed cfg t o = some s') : Drives s s' (.feed t) := by
  obtain ⟨w, hw, rfl⟩ := State.feed_cases happ
  have hd : s.drives (.feed t) = w.pc.driving := by
    simp only [State.drives, hw, TaskPc.inWf]
  have he : s.enables (.feed t) = w.pc.enabling := by
    simp only [State.enables, hw, TaskPc.inWf]
  refine ⟨fun q hq => ?_, ?_, fun h₁ h₂ => ?_, fun h => ?_⟩
  · cases q with
    | feed u =>
        have hu : u ≠ t := fun hut => hq (by rw [hut])
        simp only [State.drives, State.setTask_ne _ hu]
    | button => rfl
  · rw [hd]
    simp only [State.drives, State.setTask_self, State.setTask_world]
    exact wfStep_move t o w s.world
  · rw [hd] at h₁
    simp only [State.drives, State.setTask_self] at h₂
    rw [he]
    exact wfStep_starts h₁ h₂
  · rw [he] at h
    rw [hd]
    simp only [State.drives, State.setTask_self]
    exact wfStep_enabling h

theorem drives_press (cfg : Config) (s : State) (pressed : Bool) :
    Drives s (s.press cfg pressed) .button where
  other q hq := by
    cases q with
    | feed u => rfl
    | button => exact absurd rfl hq
  move := buttonStep_move pressed s.button s.world.motor
  starts := fun h₁ h₂ => buttonStep_starts h₁ h₂
  enabling := fun h => buttonStep_enabling h

/-- A step of any other kind touches neither drivers nor pins. -/
theorem drives_other {a : Action} (happ : s.apply cfg a = some s')
    (hfeed : ∀ t o, a ≠ .feed t o) (hpress : ∀ b, a ≠ .press b) :
    s'.drives = s.drives ∧ s'.world.motor = s.world.motor := by
  obtain ⟨htask, hother, -⟩ := State.apply_other happ hfeed
  obtain ⟨hbutton, hmotor⟩ := hother hpress
  refine ⟨funext fun q => ?_, hmotor⟩
  cases q with
  | feed u => exact htask WfPc.driving rfl u
  | button => exact congrArg ButtonPc.driving hbutton

-- ============================================================ every run

/-- Where exclusion holds, EN is low exactly while a party drives. -/
structure EnTracked (s : State) : Prop where
  mutex : MutexHeld s
  line : Line.Tracks s.drives s.world.motor.enabled

theorem enTracked_init : EnTracked State.init where
  mutex := mutexHeld_init
  line := by
    refine ⟨fun h => (nomatch h), fun ⟨p, hp⟩ => ?_⟩
    cases p <;> cases hp

theorem oneDriver_init : OneDriver State.init := by
  refine ⟨fun p _ hp => ?_, fun p hp => ?_⟩
  · cases p <;> cases hp
  · cases p <;> cases hp

/-- A party's step that starts driving only when nobody drives keeps
exclusion. -/
theorem oneDriver_of_drives {p : Driver} (hI : EnTracked s) (hP : OneDriver s)
    (hm : MutexHeld s') (hd : Drives s s' p)
    (hfree : s.enables p = true → ∀ q, s.drives q = false) :
    EnTracked s' ∧ OneDriver s' := by
  have hstep := hP.1.step hI.line hd.other hd.move fun h₁ h₂ => by
    cases hon : s.world.motor.enabled with
    | false => rfl
    | true =>
        obtain ⟨q, hq⟩ := hI.line.mp hon
        rw [hfree (hd.starts h₁ h₂) q] at hq
        cases hq
  refine ⟨⟨hm, hstep.2⟩, hstep.1, fun q hq => ?_⟩
  have hon := hstep.2.mpr ⟨q, State.drives_of_pulses hq⟩
  simpa [Motor.enabled] using hon

/-- A party that writes EN low while another one drives ends
exclusion. -/
theorem not_oneDriver_of_drives {p q : Driver} (hI : EnTracked s)
    (hd : Drives s s' p) (he : s.enables p = true) (hq : s.drives q = true) :
    ¬ OneDriver s' := by
  obtain ⟨hp, hp'⟩ := hd.enabling he
  exact fun hP => Line.Sole.clash hI.line hd.other hp hp'
    (hI.line.mpr ⟨q, hq⟩) hP.1

/-- A guarded step keeps exclusion. -/
theorem oneDriver_keep {a : Action} (hI : EnTracked s) (hP : OneDriver s)
    (hg : MotorFree s a) (happ : s.apply cfg a = some s') :
    EnTracked s' ∧ OneDriver s' := by
  have hm := hI.mutex.step happ
  cases a with
  | feed t o =>
      have hd := drives_feed happ
      refine oneDriver_of_drives hI hP hm hd fun he q => ?_
      cases hq : s.drives q with
      | false => rfl
      | true =>
          -- the other workflow is excluded by the mutex, the button by
          -- the guard
          cases q with
          | button =>
              rw [hg he] at hq
              cases hq
          | feed u =>
              obtain ⟨w, hw, -⟩ := State.feed_cases happ
              have ht : (s.task t).isFeeding = true := by rw [hw]; rfl
              have hu : (s.task u).isFeeding = true :=
                TaskPc.isFeeding_of_inWf hq
              rw [← hI.mutex.sole ht hu, (hd.enabling he).1] at hq
              cases hq
  | press pressed =>
      obtain rfl := Option.some.inj happ
      have hd := drives_press cfg s pressed
      refine oneDriver_of_drives hI hP hm hd fun he q => ?_
      cases q with
      | button => exact (hd.enabling he).1
      | feed t => exact hg he t
  | appWrite _ | fire _ | get _ | delete _ | attempt _ | cameraPoll _
  | cameraCall =>
      obtain ⟨hdr, hmo⟩ := drives_other happ (fun _ _ h => nomatch h)
        fun _ h => nomatch h
      refine ⟨⟨hm, ?_⟩, ?_, fun p hp => ?_⟩
      · rw [hdr, hmo]
        exact hI.line
      · rw [hdr]
        exact hP.1
      · have hon := hI.line.mpr ⟨p, by
          rw [← hdr]
          exact State.drives_of_pulses hp⟩
        rw [hmo]
        simpa [Motor.enabled] using hon

/-- An unguarded step ends exclusion at once. -/
theorem oneDriver_break {a : Action} (hI : EnTracked s)
    (hg : ¬ MotorFree s a) (happ : s.apply cfg a = some s') :
    ¬ OneDriver s' := by
  cases a with
  | feed t o =>
      simp only [MotorFree, Classical.not_imp, Bool.not_eq_false] at hg
      exact not_oneDriver_of_drives hI (drives_feed happ) hg.1 hg.2
  | press pressed =>
      obtain rfl := Option.some.inj happ
      simp only [MotorFree, Classical.not_imp, not_forall,
        Bool.not_eq_false] at hg
      obtain ⟨he, t, ht⟩ := hg
      exact not_oneDriver_of_drives hI (drives_press cfg s pressed) he ht
  | _ => exact absurd trivial hg

/-- In every run, one party at a time drives the motor in every state
visited if and only if every write of EN low finds the other side not
driving. -/
theorem one_driver_iff (cfg : Config) {acts : List Action}
    (hrun : (feeder cfg).run State.init acts = some s) :
    (feeder cfg).Throughout OneDriver State.init acts
      ↔ (feeder cfg).Obeys MotorFree State.init acts :=
  Machine.throughout_iff_obeys (M := feeder cfg) enTracked_init oneDriver_init
    (fun _ _ _ hI hP hg happ => oneDriver_keep hI hP hg happ)
    (fun _ _ _ hI _ hg happ => oneDriver_break hI hg happ) hrun

/-- Without button presses the mutex is enough: every run has one driver
at a time. -/
theorem feeds_one_driver
    (hr : (feeder cfg).ReachableBy (fun _ a => ∀ b, a ≠ .press b) s) :
    OneDriver s := by
  have hI := hr.invariant
    (I := fun s => s.button = .idle ∧ EnTracked s ∧ OneDriver s)
    ⟨rfl, enTracked_init, oneDriver_init⟩ fun s a s' h hg happ => ?_
  · exact hI.2.2
  · obtain ⟨hb, hI, hP⟩ := h
    have happ : s.apply cfg a = some s' := happ
    have hfree : MotorFree s a := by
      cases a with
      | feed t o =>
          intro _
          simp only [State.drives, hb, ButtonPc.driving]
      | press b => exact absurd rfl (hg b)
      | _ => trivial
    refine ⟨?_, oneDriver_keep hI hP hfree happ⟩
    rw [← hb]
    cases a with
    | feed t o => exact (State.feed_other happ).2.1
    | _ =>
        exact ((State.apply_other happ fun _ _ h => nomatch h).2.1 hg).1

/-- A scheduled feed up to its EN-low write. -/
def feedingRun : List Action :=
  [.fire 60, .attempt .schedule]
    ++ List.replicate 10 (.feed .schedule ⟨true, true, 5⟩)

/-- The exact condition on that run. -/
theorem one_driver_feeding :
    ∃ s, (feeder .default).run State.init feedingRun = some s
      ∧ ((feeder .default).Throughout OneDriver State.init feedingRun
        ↔ (feeder .default).Obeys MotorFree State.init feedingRun) :=
  ⟨_, rfl, one_driver_iff .default rfl⟩

/-- The button is pressed during that feed and released again: both
tasks are between EN low and EN high, and after the release the feed
pulses with EN high. -/
theorem press_during_feed :
    ((feeder .default).run State.init
        (feedingRun ++ List.replicate 4 (.press true))).map
        (fun s => (s.drives (.feed .schedule), s.drives .button))
      = some (true, true)
    ∧ ((feeder .default).run State.init
        (feedingRun ++ List.replicate 4 (.press true)
          ++ List.replicate 2 (.press false)
          ++ [.feed .schedule ⟨true, true, 5⟩])).map
        (fun s => (s.pulses (.feed .schedule), s.world.motor.en))
      = some (true, true) := by
  decide +kernel

end SitNChow
