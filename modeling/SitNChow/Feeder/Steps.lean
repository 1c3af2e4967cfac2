/-
What one step of the feeder can do, said once: an inversion lemma for
each action that has a condition, and the frame of a workflow step —
which steps release the mutex, write the camera flag, write motor pins
or record an event.

The mutex invariant comes from these alone: `s_feed_mutex` is held by a
task exactly while that task is inside `do_feed_workflow`.
-/
import SitNChow.Feeder.Model

namespace SitNChow

open Kit

variable {cfg : Config} {s s' : State} {t u : FeedTask}

-- =========================================================== frame facts

@[simp] theorem State.setTask_self (pc : TaskPc) :
    (s.setTask t pc).task t = pc := by
  simp [State.setTask]

theorem State.setTask_ne (pc : TaskPc) (h : u ≠ t) :
    (s.setTask t pc).task u = s.task u := by
  simp [State.setTask, h]

@[simp] theorem State.setTask_world (pc : TaskPc) :
    (s.setTask t pc).world = s.world := rfl

@[simp] theorem State.setTask_pending (pc : TaskPc) :
    (s.setTask t pc).pending = s.pending := rfl

@[simp] theorem State.remove_task (read write : Nat) (v : CJson) :
    (s.remove read write v).task = s.task := rfl

@[simp] theorem World.log_feedMutex (x : World) (e : Event) :
    (x.log e).feedMutex = x.feedMutex := rfl

@[simp] theorem World.log_trace (x : World) (e : Event) :
    (x.log e).trace = e :: x.trace := rfl

-- ====================================================== workflow steps

/-- The place a workflow step leaves its task at. -/
def afterWf : Option Wf → TaskPc
  | some w => .feeding w
  | none => .idle

/-- The event a workflow step records. -/
def wfEvent (cfg : Config) (t : FeedTask) (w : Wf) : Option Event :=
  match w.pc with
  | .run => some (.dispenserRun t w.trig)
  | .dispense (.done err) => some (.dispensed t w.trig err)
  | .logEvent => some (.feedEvent t w.trig w.foodLow)
  | .notifyDone =>
      if cfg.identityReady then
        some (.notification t "🐾 Feeding complete"
          (if w.sittingConfirmed
            then "Your pet was detected sitting and has been fed!"
            else "Your pet was fed (sitting not confirmed)."))
      else none
  | .notifyLow =>
      if cfg.identityReady then
        some (.notification t "⚠️ Low food level"
          "Your feeder is running low — time to refill!")
      else none
  | .lowFlag => some (.lowFoodFlag t)
  | .release => some (.released t)
  | _ => none

section Workflow

variable (cfg t) (o : Sensed) (w : Wf) (x : World)

/-- A workflow step records its event and nothing else. -/
theorem wfStep_trace :
    (wfStep cfg t o w x).2.trace = (wfEvent cfg t w).toList ++ x.trace := by
  obtain ⟨trig, sittingConfirmed, foodLow, pc⟩ := w
  cases pc with
  | dispense d => cases d <;> rfl
  | notifyDone | notifyLow =>
      simp only [wfStep, wfEvent, World.pushNotification]
      split <;> rfl
  | _ => rfl

/-- The only step that gives the mutex is the last. -/
theorem wfStep_feedMutex :
    (wfStep cfg t o w x).2.feedMutex
      = if w.pc = .release then none else x.feedMutex := by
  obtain ⟨trig, sittingConfirmed, foodLow, pc⟩ := w
  cases pc with
  | dispense d => cases d <;> rfl
  | notifyDone | notifyLow =>
      simp only [wfStep, World.pushNotification]
      split <;> rfl
  | _ => rfl

/-- The workflow returns exactly where it gives the mutex. -/
theorem wfStep_returns : (wfStep cfg t o w x).1 = none ↔ w.pc = .release := by
  obtain ⟨trig, sittingConfirmed, foodLow, pc⟩ := w
  cases pc with
  | dispense d => cases d <;> simp [wfStep]
  | _ => simp [wfStep]

/-- The camera flag is written by the start and the stop call. -/
theorem wfStep_cameraStreaming :
    (wfStep cfg t o w x).2.cameraStreaming
      = if w.pc = .starting then true
        else if w.pc = .stopping then false
        else x.cameraStreaming := by
  obtain ⟨trig, sittingConfirmed, foodLow, pc⟩ := w
  cases pc with
  | dispense d => cases d <;> rfl
  | notifyDone | notifyLow =>
      simp only [wfStep, World.pushNotification]
      split <;> rfl
  | _ => rfl

end Workflow

-- ======================================================== inversions

/-- What a GET can do: nothing, or bring the task to the acknowledgement
of the command it has read. -/
theorem State.get_cases {ok : Bool} (h : s.get ok = some s') :
    s.task .command = .idle
      ∧ (s' = s ∨ ∃ id v c, s.pending = some (id, v)
          ∧ pendingCommand v = some c
          ∧ s' = s.setTask .command (.ack id c)) := by
  unfold State.get at h
  split at h
  · next hidle =>
    refine ⟨hidle, ?_⟩
    split at h
    · split at h
      · next id v hp =>
        split at h
        · next c hc =>
          exact .inr ⟨id, v, c, hp, hc, (Option.some.inj h).symm⟩
        · exact .inl (Option.some.inj h).symm
      · exact .inl (Option.some.inj h).symm
    · exact .inl (Option.some.inj h).symm
  · cases h

/-- What a DELETE can do: remove what the register holds, or leave it;
the task goes on to the guard with the command it had read. -/
theorem State.delete_cases {ok : Bool} (h : s.delete ok = some s') :
    ∃ id c, s.task .command = .ack id c
      ∧ ((∃ write v, ok = true ∧ s.pending = some (write, v)
          ∧ s' = (s.setTask .command (.attempt (c.trigger id))).remove
              id write v)
        ∨ ((ok = false ∨ s.pending = none)
          ∧ s' = s.setTask .command (.attempt (c.trigger id)))) := by
  unfold State.delete at h
  split at h
  · next id c hack =>
    refine ⟨id, c, hack, ?_⟩
    simp only [State.setTask_pending] at h
    cases ok with
    | false => exact .inr ⟨.inl rfl, (Option.some.inj h).symm⟩
    | true =>
        cases hp : s.pending with
        | none =>
            rw [hp] at h
            exact .inr ⟨.inr rfl, (Option.some.inj h).symm⟩
        | some wv =>
            obtain ⟨write, v⟩ := wv
            rw [hp] at h
            exact .inl ⟨write, v, rfl, rfl, (Option.some.inj h).symm⟩
  · cases h

/-- What the guard can do: let the trigger in when the mutex is free,
send it away when it is not. -/
theorem State.attempt_cases (h : s.attempt t = some s') :
    ∃ tr, s.task t = .attempt tr
      ∧ ((s.world.feedMutex = none ∧ s' = s.start t tr)
        ∨ ∃ holder, s.world.feedMutex = some holder
            ∧ s' = s.ignore t tr holder) := by
  unfold State.attempt at h
  split at h
  · next tr hat =>
    refine ⟨tr, hat, ?_⟩
    split at h
    · next hm => exact .inl ⟨hm, (Option.some.inj h).symm⟩
    · next holder hm => exact .inr ⟨holder, hm, (Option.some.inj h).symm⟩
  · cases h

/-- What a workflow step does to the system: its own task and what the
tasks share. -/
theorem State.feed_cases {o : Sensed} (h : s.feed cfg t o = some s') :
    ∃ w, s.task t = .feeding w
      ∧ s' = { s with world := (wfStep cfg t o w s.world).2 }.setTask t
          (afterWf (wfStep cfg t o w s.world).1) := by
  unfold State.feed at h
  split at h
  · next w hw =>
    refine ⟨w, hw, ?_⟩
    rw [← Option.some.inj h]
    cases (wfStep cfg t o w s.world).1 <;> rfl
  · cases h

/-- The schedule's callback brings its task from the loop to the
guard. -/
theorem State.fire_cases {grams : Int} (h : s.fire grams = some s') :
    s.task .schedule = .idle
      ∧ s' = s.setTask .schedule (.attempt
          { write := none, grams := grams, source := cstr "schedule",
            force := false }) := by
  unfold State.fire at h
  split at h
  · next hidle => exact ⟨hidle, (Option.some.inj h).symm⟩
  · cases h

/-- What a camera poll can do: nothing, or remember the value and enter
a call when it has changed. -/
theorem State.cameraPoll_cases {val : Option CJson}
    (h : s.cameraPoll val = some s') :
    s.camera.call = none
      ∧ ((val = none ∧ s' = s) ∨ ∃ v, val = some v
          ∧ s' = { s with camera :=
              { lastState := v.isTrue, polled := v.isTrue,
                call := if v.isTrue ≠ s.camera.lastState then some v.isTrue
                  else none } }) := by
  unfold State.cameraPoll at h
  split at h
  · cases h
  · next hc => exact ⟨hc, .inl ⟨rfl, (Option.some.inj h).symm⟩⟩
  · next v hc => exact ⟨hc, .inr ⟨v, rfl, (Option.some.inj h).symm⟩⟩

/-- Leaving a start or stop call writes the flag. -/
theorem State.cameraCall_cases (h : s.cameraCall = some s') :
    ∃ b, s.camera.call = some b
      ∧ s' = { s with world := { s.world with cameraStreaming := b }
                      camera := { s.camera with call := none } } := by
  unfold State.cameraCall at h
  split at h
  · next b hc => exact ⟨b, hc, (Option.some.inj h).symm⟩
  · cases h

-- ================================================== the mutex invariant

/-- The task is inside `do_feed_workflow`, past the guard. -/
def TaskPc.isFeeding : TaskPc → Bool
  | .feeding _ => true
  | _ => false

/-- A test of the workflow's place, false outside the workflow. -/
def TaskPc.inWf (p : WfPc → Bool) : TaskPc → Bool
  | .feeding w => p w.pc
  | _ => false

theorem TaskPc.isFeeding_of_inWf {p : WfPc → Bool} {pc : TaskPc}
    (h : pc.inWf p = true) : pc.isFeeding = true := by
  cases pc with
  | feeding w => rfl
  | _ => cases h

/-- `s_feed_mutex` is held by a task exactly while that task is inside
the workflow. -/
def MutexHeld (s : State) : Prop :=
  ∀ t, s.world.feedMutex = some t ↔ (s.task t).isFeeding = true

/-- Moving a task that stays outside the workflow keeps the
invariant. -/
theorem MutexHeld.setTask (h : MutexHeld s) {pc : TaskPc}
    (hout : (s.task t).isFeeding = false) (hpc : pc.isFeeding = false)
    (hm : s'.world.feedMutex = s.world.feedMutex)
    (htask : s'.task = (s.setTask t pc).task) : MutexHeld s' := by
  intro u
  rw [hm, htask, h u]
  by_cases hu : u = t
  · rw [hu, State.setTask_self, hout, hpc]
  · rw [State.setTask_ne pc hu]

/-- Entering by a free mutex, leaving by giving it. -/
theorem MutexHeld.enter (hfree : s.world.feedMutex = none) (h : MutexHeld s)
    (tr : Trigger) : MutexHeld (s.start t tr) := by
  intro u
  by_cases hu : u = t
  · rw [hu]
    simp [State.start, TaskPc.isFeeding]
  · have hne : (s.start t tr).task u = s.task u := State.setTask_ne _ hu
    have hout := h u
    rw [hfree] at hout
    rw [hne, ← hout]
    simp [State.start, Ne.symm hu]

theorem MutexHeld.work (h : MutexHeld s) {o : Sensed} {w : Wf}
    (hw : s.task t = .feeding w) :
    MutexHeld ({ s with world := (wfStep cfg t o w s.world).2 }.setTask t
      (afterWf (wfStep cfg t o w s.world).1)) := by
  have hheld : s.world.feedMutex = some t := (h t).mpr (by rw [hw]; rfl)
  intro u
  simp only [State.setTask_world]
  rw [wfStep_feedMutex, hheld]
  cases hr : (wfStep cfg t o w s.world).1 with
  | none =>
      rw [if_pos ((wfStep_returns ..).mp hr)]
      by_cases hu : u = t
      · rw [hu, State.setTask_self]
        simp [afterWf, TaskPc.isFeeding]
      · rw [State.setTask_ne _ hu, ← h u, hheld]
        simp [Ne.symm hu]
  | some w' =>
      have hne : w.pc ≠ .release := by
        intro hrel
        rw [(wfStep_returns ..).mpr hrel] at hr
        cases hr
      rw [if_neg hne]
      by_cases hu : u = t
      · rw [hu, State.setTask_self]
        simp [afterWf, TaskPc.isFeeding]
      · rw [State.setTask_ne _ hu, ← h u, hheld]

/-- Every step keeps the mutex invariant. -/
theorem MutexHeld.step (h : MutexHeld s) {a : Action}
    (happ : s.apply cfg a = some s') : MutexHeld s' := by
  cases a with
  | appWrite v =>
      obtain rfl := Option.some.inj happ
      exact h
  | fire grams =>
      obtain ⟨hidle, rfl⟩ := State.fire_cases happ
      exact h.setTask (by rw [hidle]; rfl) rfl rfl rfl
  | get ok =>
      obtain ⟨hidle, rfl | ⟨id, v, c, -, -, rfl⟩⟩ := State.get_cases happ
      · exact h
      · exact h.setTask (by rw [hidle]; rfl) rfl rfl rfl
  | delete ok =>
      obtain ⟨id, c, hack, ⟨write, v, -, -, rfl⟩ | ⟨-, rfl⟩⟩ :=
        State.delete_cases happ
      · exact h.setTask (by rw [hack]; rfl) rfl rfl rfl
      · exact h.setTask (by rw [hack]; rfl) rfl rfl rfl
  | attempt t =>
      obtain ⟨tr, hat, ⟨hfree, rfl⟩ | ⟨holder, -, rfl⟩⟩ :=
        State.attempt_cases happ
      · exact h.enter hfree tr
      · exact h.setTask (by rw [hat]; rfl) rfl rfl rfl
  | feed t o =>
      obtain ⟨w, hw, rfl⟩ := State.feed_cases happ
      exact h.work hw
  | press pressed =>
      obtain rfl := Option.some.inj happ
      exact h
  | cameraPoll val =>
      obtain ⟨-, ⟨-, rfl⟩ | ⟨v, -, rfl⟩⟩ := State.cameraPoll_cases happ
      · exact h
      · exact h
  | cameraCall =>
      obtain ⟨b, -, rfl⟩ := State.cameraCall_cases happ
      exact h

theorem mutexHeld_init : MutexHeld State.init := by
  intro t
  simp [State.init, TaskPc.isFeeding]

/-- In every reachable state the mutex is held by the task in the
workflow. -/
theorem mutexHeld_reachable (hr : (feeder cfg).Reachable s) : MutexHeld s :=
  hr.invariant mutexHeld_init fun _ _ _ h _ happ => h.step happ

/-- At most one task is inside the workflow. -/
theorem MutexHeld.sole (h : MutexHeld s) (ht : (s.task t).isFeeding = true)
    (hu : (s.task u).isFeeding = true) : t = u :=
  Option.some.inj (((h t).mpr ht).symm.trans ((h u).mpr hu))

-- ================================================ other parties' steps

/-- Moving a task outside the workflow, or to its first line, changes no
test that is false there. -/
theorem State.setTask_inWf {p : WfPc → Bool} {s₁ : State} {pc : TaskPc}
    (htask : s₁.task = s.task) (hout : (s.task t).inWf p = false)
    (hpc : pc.inWf p = false) :
    ∀ u, ((s₁.setTask t pc).task u).inWf p = (s.task u).inWf p := by
  intro u
  by_cases hu : u = t
  · rw [hu, State.setTask_self, hout, hpc]
  · rw [State.setTask_ne _ hu, htask]

/-- A step that is no workflow step moves no task inside the workflow;
one that is no button step leaves button and motor alone, and one that
is no step of the camera poll leaves the camera alone. -/
theorem State.apply_other {a : Action} (happ : s.apply cfg a = some s')
    (hfeed : ∀ t o, a ≠ .feed t o) :
    (∀ p : WfPc → Bool, p .beep = false →
        ∀ u, (s'.task u).inWf p = (s.task u).inWf p)
      ∧ ((∀ b, a ≠ .press b) →
        s'.button = s.button ∧ s'.world.motor = s.world.motor)
      ∧ ((∀ v, a ≠ .cameraPoll v) → a ≠ .cameraCall →
        s'.camera = s.camera
          ∧ s'.world.cameraStreaming = s.world.cameraStreaming) := by
  cases a with
  | appWrite v =>
      obtain rfl := Option.some.inj happ
      exact ⟨fun _ _ _ => rfl, fun _ => ⟨rfl, rfl⟩, fun _ _ => ⟨rfl, rfl⟩⟩
  | fire grams =>
      obtain ⟨hidle, rfl⟩ := State.fire_cases happ
      exact ⟨fun p _ => State.setTask_inWf rfl (by rw [hidle]; rfl) rfl,
        fun _ => ⟨rfl, rfl⟩, fun _ _ => ⟨rfl, rfl⟩⟩
  | get ok =>
      obtain ⟨hidle, rfl | ⟨id, v, c, -, -, rfl⟩⟩ := State.get_cases happ
      · exact ⟨fun _ _ _ => rfl, fun _ => ⟨rfl, rfl⟩, fun _ _ => ⟨rfl, rfl⟩⟩
      · exact ⟨fun p _ => State.setTask_inWf rfl (by rw [hidle]; rfl) rfl,
          fun _ => ⟨rfl, rfl⟩, fun _ _ => ⟨rfl, rfl⟩⟩
  | delete ok =>
      obtain ⟨id, c, hack, ⟨write, v, -, -, rfl⟩ | ⟨-, rfl⟩⟩ :=
        State.delete_cases happ
      · exact ⟨fun p _ => State.setTask_inWf rfl (by rw [hack]; rfl) rfl,
          fun _ => ⟨rfl, rfl⟩, fun _ _ => ⟨rfl, rfl⟩⟩
      · exact ⟨fun p _ => State.setTask_inWf rfl (by rw [hack]; rfl) rfl,
          fun _ => ⟨rfl, rfl⟩, fun _ _ => ⟨rfl, rfl⟩⟩
  | attempt t =>
      obtain ⟨tr, hat, ⟨-, rfl⟩ | ⟨holder, -, rfl⟩⟩ := State.attempt_cases happ
      · exact ⟨fun p hp => State.setTask_inWf rfl (by rw [hat]; rfl) hp,
          fun _ => ⟨rfl, rfl⟩, fun _ _ => ⟨rfl, rfl⟩⟩
      · exact ⟨fun p _ => State.setTask_inWf rfl (by rw [hat]; rfl) rfl,
          fun _ => ⟨rfl, rfl⟩, fun _ _ => ⟨rfl, rfl⟩⟩
  | feed t o => exact absurd rfl (hfeed t o)
  | press pressed =>
      obtain rfl := Option.some.inj happ
      exact ⟨fun _ _ _ => rfl, fun h => absurd rfl (h pressed),
        fun _ _ => ⟨rfl, rfl⟩⟩
  | cameraPoll val =>
      obtain ⟨-, ⟨-, rfl⟩ | ⟨v, -, rfl⟩⟩ := State.cameraPoll_cases happ
      · exact ⟨fun _ _ _ => rfl, fun _ => ⟨rfl, rfl⟩, fun _ _ => ⟨rfl, rfl⟩⟩
      · exact ⟨fun _ _ _ => rfl, fun _ => ⟨rfl, rfl⟩,
          fun h => absurd rfl (h _)⟩
  | cameraCall =>
      obtain ⟨b, -, rfl⟩ := State.cameraCall_cases happ
      exact ⟨fun _ _ _ => rfl, fun _ => ⟨rfl, rfl⟩, fun _ h => absurd rfl h⟩

/-- A workflow step leaves the other task, the button and the camera
poll alone. -/
theorem State.feed_other {o : Sensed} (happ : s.feed cfg t o = some s') :
    (∀ u, u ≠ t → s'.task u = s.task u) ∧ s'.button = s.button
      ∧ s'.camera = s.camera := by
  obtain ⟨w, -, rfl⟩ := State.feed_cases happ
  exact ⟨fun u hu => State.setTask_ne _ hu, rfl, rfl⟩

end SitNChow
