/-
One feed workflow as a block: what `do_feed_workflow` does between
taking `s_feed_mutex` and giving it back.

# Blocks

`openBlock` reads a trace as a sequence of blocks, each opened by a
`started` and closed by one `released` of the same task, with nothing of
another workflow in between. `feed_workflows_exclusive` says that every
trace of the system is one, that the open block is the workflow past the
guard, and that a workflow reaches its release whatever its sensors
answer: `Wf.rank` bounds its remaining steps.
-/
import SitNChow.Feeder.Commands

namespace SitNChow

open Kit

variable {cfg : Config} {s s' : State} {t u : FeedTask}

-- ============================================================ the blocks

/-- The workflow past the guard: its task and its arguments. -/
abbrev Block := FeedTask × Trigger

/-- Reading one event with block `b` open: the block open after it, or
`none` when the event does not belong there. -/
def Event.read (b : Option Block) : Event → Option (Option Block)
  | .removed _ _ _ => some b
  | .started t tr => if b = none then some (some (t, tr)) else none
  | .ignored t _ holder =>
      if b.map Prod.fst = some holder ∧ t ≠ holder then some b else none
  | .dispenserRun t tr | .dispensed t tr _ | .feedEvent t tr _ =>
      if b = some (t, tr) then some b else none
  | .notification t _ _ | .lowFoodFlag t =>
      if b.map Prod.fst = some t then some b else none
  | .released t => if b.map Prod.fst = some t then some none else none

/-- The block open at the end of a trace (newest event first); `none`
when the trace is no sequence of blocks. -/
def openBlock : List Event → Option (Option Block)
  | [] => some none
  | e :: trace => (openBlock trace).bind fun b => e.read b

/-- The trace is a sequence of blocks, and the open one is that of the
task in the workflow. -/
def Bracketed (s : State) : Prop :=
  ∃ b, openBlock s.world.trace = some b
    ∧ ∀ t tr, b = some (t, tr) ↔ ∃ w, s.task t = .feeding w ∧ w.trig = tr

/-- A step that moves no task into or out of the workflow and adds no
event of a workflow. -/
theorem Bracketed.frame (h : Bracketed s)
    (htrace : openBlock s'.world.trace = openBlock s.world.trace)
    (htask : ∀ t w, s'.task t = .feeding w ↔ s.task t = .feeding w) :
    Bracketed s' := by
  obtain ⟨b, hb, hin⟩ := h
  refine ⟨b, htrace.trans hb, fun t tr => ?_⟩
  rw [hin t tr]
  exact exists_congr fun w => by rw [htask]

/-- Moving a task outside the workflow. -/
theorem State.setTask_feeding {pc : TaskPc}
    (hout : (s.task t).isFeeding = false) (hpc : pc.isFeeding = false)
    (u : FeedTask) (w : Wf) :
    (s.setTask t pc).task u = .feeding w ↔ s.task u = .feeding w := by
  by_cases hu : u = t
  · rw [hu, State.setTask_self]
    constructor
    · intro h
      rw [h] at hpc
      cases hpc
    · intro h
      rw [h] at hout
      cases hout
  · rw [State.setTask_ne _ hu]

/-- Reading a removal changes nothing. -/
theorem openBlock_removed (read write : Nat) (v : CJson) (trace : List Event) :
    openBlock (.removed read write v :: trace) = openBlock trace := by
  show (openBlock trace).bind some = _
  cases openBlock trace <;> rfl

/-- A workflow's event belongs to its own block, which the release
closes. -/
theorem wfEvent_read (cfg : Config) (t : FeedTask) (w : Wf) (trace : List Event)
    (hb : openBlock trace = some (some (t, w.trig))) :
    openBlock ((wfEvent cfg t w).toList ++ trace)
      = some (if w.pc = .release then none else some (t, w.trig)) := by
  obtain ⟨trig, sittingConfirmed, foodLow, pc⟩ := w
  cases pc with
  | dispense d =>
      cases d <;> simp [wfEvent, openBlock, Event.read, hb]
  | notifyDone | notifyLow =>
      simp only [wfEvent]
      split <;> simp [openBlock, Event.read, hb]
  | _ => simp [wfEvent, openBlock, Event.read, hb]

/-- A workflow keeps its arguments. -/
theorem wfStep_trig {o : Sensed} {w w' : Wf} {x : World}
    (h : (wfStep cfg t o w x).1 = some w') : w'.trig = w.trig := by
  obtain ⟨trig, sittingConfirmed, foodLow, pc⟩ := w
  cases pc with
  | dispense d =>
      cases d <;> simp only [wfStep, Option.some.injEq] at h <;> rw [← h]
  | release => cases h
  | _ =>
      simp only [wfStep, Option.some.injEq] at h
      rw [← h]

theorem Bracketed.feed (h : Bracketed s) (hm : MutexHeld s) {o : Sensed}
    (happ : s.feed cfg t o = some s') : Bracketed s' := by
  obtain ⟨w, hw, rfl⟩ := State.feed_cases happ
  obtain ⟨b, hb, hin⟩ := h
  obtain rfl := (hin t w.trig).mpr ⟨w, hw, rfl⟩
  have hread := wfEvent_read cfg t w s.world.trace hb
  refine ⟨_, by rw [State.setTask_world, wfStep_trace]; exact hread,
    fun u tr => ?_⟩
  cases hr : (wfStep cfg t o w s.world).1 with
  | none =>
      rw [if_pos ((wfStep_returns ..).mp hr)]
      refine ⟨fun hc => (nomatch hc), fun ⟨w', hw', _⟩ => ?_⟩
      by_cases hu : u = t
      · rw [hu, State.setTask_self] at hw'
        cases hw'
      · -- the other task is not in the workflow
        rw [State.setTask_ne _ hu] at hw'
        have hsole := hm.sole (t := u) (u := t) (by rw [hw']; rfl)
          (by rw [hw]; rfl)
        exact absurd hsole hu
  | some w' =>
      have hne : w.pc ≠ .release := by
        intro hrel
        rw [(wfStep_returns ..).mpr hrel] at hr
        cases hr
      rw [if_neg hne]
      by_cases hu : u = t
      · rw [hu, State.setTask_self]
        have htrig := wfStep_trig hr
        simp [afterWf, htrig]
      · rw [State.setTask_ne _ hu, ← hin u tr]

theorem Bracketed.attempt (h : Bracketed s) (hm : MutexHeld s)
    (happ : s.attempt t = some s') : Bracketed s' := by
  obtain ⟨tr, hat, ⟨hfree, rfl⟩ | ⟨holder, hheld, rfl⟩⟩ :=
    State.attempt_cases happ
  · -- let in: no block was open
    obtain ⟨b, hb, hin⟩ := h
    have hout : ∀ u, (s.task u).isFeeding = false := by
      intro u
      rw [← Bool.not_eq_true, ← hm u, hfree]
      simp
    have hnone : b = none := by
      cases b with
      | none => rfl
      | some ttr =>
          obtain ⟨w, hw, -⟩ := (hin ttr.1 ttr.2).mp rfl
          have := hout ttr.1
          rw [hw] at this
          cases this
    subst hnone
    refine ⟨some (t, tr), ?_, fun u tr' => ?_⟩
    · simp [State.start, openBlock, hb, Event.read]
    · by_cases hu : u = t
      · rw [hu]
        simp [State.start]
      · have hne : (s.start t tr).task u = s.task u := State.setTask_ne _ hu
        rw [hne, ← hin u tr']
        simp [Ne.symm hu]
  · -- sent away: the holder's block stays open
    have hne : t ≠ holder := by
      intro he
      have := (hm holder).mp hheld
      rw [← he, hat] at this
      cases this
    refine h.frame ?_ (State.setTask_feeding (by rw [hat]; rfl) rfl)
    obtain ⟨b, hb, hin⟩ := h
    have hfeed := (hm holder).mp hheld
    cases hw : s.task holder with
    | feeding w =>
        obtain rfl := (hin holder w.trig).mpr ⟨w, hw, rfl⟩
        simp [State.ignore, openBlock, hb, Event.read, hne]
    | _ =>
        rw [hw] at hfeed
        cases hfeed

theorem Bracketed.step (h : Bracketed s) (hm : MutexHeld s) {a : Action}
    (happ : s.apply cfg a = some s') : Bracketed s' := by
  cases a with
  | appWrite v =>
      obtain rfl := Option.some.inj happ
      exact h.frame rfl fun _ _ => Iff.rfl
  | fire grams =>
      obtain ⟨hidle, rfl⟩ := State.fire_cases happ
      exact h.frame rfl (State.setTask_feeding (by rw [hidle]; rfl) rfl)
  | get ok =>
      obtain ⟨hidle, rfl | ⟨id, v, c, -, -, rfl⟩⟩ := State.get_cases happ
      · exact h
      · exact h.frame rfl (State.setTask_feeding (by rw [hidle]; rfl) rfl)
  | delete ok =>
      obtain ⟨id, c, hack, ⟨write, v, -, -, rfl⟩ | ⟨-, rfl⟩⟩ :=
        State.delete_cases happ
      · exact h.frame (openBlock_removed ..)
          (State.setTask_feeding (by rw [hack]; rfl) rfl)
      · exact h.frame rfl (State.setTask_feeding (by rw [hack]; rfl) rfl)
  | attempt t => exact h.attempt hm happ
  | feed t o => exact h.feed hm happ
  | press pressed =>
      obtain rfl := Option.some.inj happ
      exact h.frame rfl fun _ _ => Iff.rfl
  | cameraPoll val =>
      obtain ⟨-, ⟨-, rfl⟩ | ⟨v, -, rfl⟩⟩ := State.cameraPoll_cases happ
      · exact h
      · exact h.frame rfl fun _ _ => Iff.rfl
  | cameraCall =>
      obtain ⟨b, -, rfl⟩ := State.cameraCall_cases happ
      exact h.frame rfl fun _ _ => Iff.rfl

theorem bracketed_init : Bracketed State.init := by
  refine ⟨none, rfl, fun t tr => ?_⟩
  simp [State.init]

/-- Every trace of the system is a sequence of blocks. -/
theorem bracketed_reachable (hr : (feeder cfg).Reachable s) : Bracketed s :=
  (hr.invariant (I := fun s => MutexHeld s ∧ Bracketed s)
    ⟨mutexHeld_init, bracketed_init⟩
    fun _ _ _ h _ happ => ⟨h.1.step happ, h.2.step h.1 happ⟩).2

-- ========================================================= the way out

/-- The steps a workflow still has to its return, at most. -/
def Wf.rank (cfg : Config) (w : Wf) : Nat :=
  let dispense := DispenserPc.rank cfg.motor w.trig.grams
  match w.pc with
  | .beep => dispense .check + 15
  | .tofWait => dispense .check + 14
  | .streamStart => dispense .check + 13
  | .starting => dispense .check + 12
  | .sitting => dispense .check + 11
  | .streamStop => dispense .check + 10
  | .stopping => dispense .check + 9
  | .run => dispense .check + 8
  | .dispense d => dispense d + 7
  | .ultrasonic => 6
  | .logEvent => 5
  | .notifyDone => 4
  | .notifyLow => 3
  | .lowFlag => 2
  | .release => 1

/-- Whatever its sensors answer, a workflow step is one step nearer the
return. -/
theorem wfStep_rank {o : Sensed} {w w' : Wf} {x : World}
    (h : (wfStep cfg t o w x).1 = some w') : w'.rank cfg < w.rank cfg := by
  obtain ⟨trig, sittingConfirmed, foodLow, pc⟩ := w
  cases pc with
  | dispense d =>
      cases d with
      | done err =>
          obtain rfl := Option.some.inj h
          simp [Wf.rank]
      | _ =>
          obtain rfl := Option.some.inj h
          exact Nat.add_lt_add_right
            (dispenserStep_rank cfg.motor trig.grams _ _ (by simp)) 7
  | release => cases h
  | beep =>
      obtain rfl := Option.some.inj h
      cases trig.force <;> simp [Wf.rank]
  | tofWait =>
      obtain rfl := Option.some.inj h
      cases o.petDetected <;> simp [Wf.rank]
  | notifyDone =>
      obtain rfl := Option.some.inj h
      cases foodLow <;> simp [Wf.rank]
  | _ =>
      obtain rfl := Option.some.inj h
      simp [Wf.rank]

/-- No other step moves a task that is in the workflow. -/
theorem State.apply_feeding {a : Action} {w : Wf} (hw : s.task t = .feeding w)
    (happ : s.apply cfg a = some s') (ha : ∀ o, a ≠ .feed t o) :
    s'.task t = .feeding w := by
  -- a task that another step moves is elsewhere
  have hne : ∀ {u pc}, s.task u = pc → pc.isFeeding = false → t ≠ u := by
    rintro u pc hu hpc rfl
    rw [← hu, hw] at hpc
    cases hpc
  cases a with
  | appWrite v =>
      obtain rfl := Option.some.inj happ
      exact hw
  | fire grams =>
      obtain ⟨hidle, rfl⟩ := State.fire_cases happ
      exact (State.setTask_ne _ (hne hidle rfl)).trans hw
  | get ok =>
      obtain ⟨hidle, rfl | ⟨id, v, c, -, -, rfl⟩⟩ := State.get_cases happ
      · exact hw
      · exact (State.setTask_ne _ (hne hidle rfl)).trans hw
  | delete ok =>
      obtain ⟨id, c, hack, ⟨write, v, -, -, rfl⟩ | ⟨-, rfl⟩⟩ :=
        State.delete_cases happ
      · exact (State.setTask_ne _ (hne hack rfl)).trans hw
      · exact (State.setTask_ne _ (hne hack rfl)).trans hw
  | attempt u =>
      obtain ⟨tr, hat, ⟨-, rfl⟩ | ⟨holder, -, rfl⟩⟩ := State.attempt_cases happ
      · exact (State.setTask_ne _ (hne hat rfl)).trans hw
      · exact (State.setTask_ne _ (hne hat rfl)).trans hw
  | feed u o =>
      have hu : t ≠ u := by
        rintro rfl
        exact ha o rfl
      rw [(State.feed_other happ).1 t hu]
      exact hw
  | press pressed =>
      obtain rfl := Option.some.inj happ
      exact hw
  | cameraPoll val =>
      obtain ⟨-, ⟨-, rfl⟩ | ⟨v, -, rfl⟩⟩ := State.cameraPoll_cases happ
      · exact hw
      · exact hw
  | cameraCall =>
      obtain ⟨b, -, rfl⟩ := State.cameraCall_cases happ
      exact hw

/-- A step adds to the trace and removes nothing from it. -/
theorem State.apply_trace {a : Action} (happ : s.apply cfg a = some s') :
    ∃ new, s'.world.trace = new ++ s.world.trace := by
  cases a with
  | appWrite v =>
      obtain rfl := Option.some.inj happ
      exact ⟨[], rfl⟩
  | fire grams =>
      obtain ⟨-, rfl⟩ := State.fire_cases happ
      exact ⟨[], rfl⟩
  | get ok =>
      obtain ⟨-, rfl | ⟨id, v, c, -, -, rfl⟩⟩ := State.get_cases happ
      · exact ⟨[], rfl⟩
      · exact ⟨[], rfl⟩
  | delete ok =>
      obtain ⟨id, c, -, ⟨write, v, -, -, rfl⟩ | ⟨-, rfl⟩⟩ :=
        State.delete_cases happ
      · exact ⟨[_], rfl⟩
      · exact ⟨[], rfl⟩
  | attempt u =>
      obtain ⟨tr, -, ⟨-, rfl⟩ | ⟨holder, -, rfl⟩⟩ := State.attempt_cases happ
      · exact ⟨[_], rfl⟩
      · exact ⟨[_], rfl⟩
  | feed u o =>
      obtain ⟨w, -, rfl⟩ := State.feed_cases happ
      exact ⟨_, wfStep_trace ..⟩
  | press pressed =>
      obtain rfl := Option.some.inj happ
      exact ⟨[], rfl⟩
  | cameraPoll val =>
      obtain ⟨-, ⟨-, rfl⟩ | ⟨v, -, rfl⟩⟩ := State.cameraPoll_cases happ
      · exact ⟨[], rfl⟩
      · exact ⟨[], rfl⟩
  | cameraCall =>
      obtain ⟨b, -, rfl⟩ := State.cameraCall_cases happ
      exact ⟨[], rfl⟩

/-- The event is task `t`'s giving of the mutex. -/
def Event.isRelease (t : FeedTask) : Event → Bool
  | .released u => u == t
  | _ => false

/-- How often task `t` has given the mutex. -/
def State.releases (s : State) (t : FeedTask) : Nat :=
  s.world.trace.countP (·.isRelease t)

/-- The action is a step of task `t`'s workflow. -/
def Action.isFeed (t : FeedTask) : Action → Bool
  | .feed u _ => u == t
  | _ => false

theorem State.apply_releases {a : Action}
    (happ : (feeder cfg).apply a s = some s')
    (t : FeedTask) : s.releases t ≤ s'.releases t := by
  obtain ⟨new, hnew⟩ := State.apply_trace happ
  simp only [State.releases, hnew, List.countP_append]
  omega

theorem run_releases {acts : List Action}
    (hrun : (feeder cfg).run s acts = some s') (t : FeedTask) :
    s.releases t ≤ s'.releases t := by
  induction acts generalizing s with
  | nil =>
      obtain rfl := Option.some.inj hrun
      exact Nat.le_refl _
  | cons a rest ih =>
      obtain ⟨s₁, happ, hrun₁⟩ := Machine.run_cons_inv hrun
      exact Nat.le_trans (State.apply_releases happ t) (ih hrun₁)

/-- In every run, a workflow that has been given as many steps as its
rank has given the mutex. -/
theorem run_releases_lt {acts : List Action} {w : Wf}
    (hw : s.task t = .feeding w) (hrun : (feeder cfg).run s acts = some s')
    (hmany : w.rank cfg ≤ acts.countP (·.isFeed t)) :
    s.releases t < s'.releases t := by
  induction acts generalizing s w with
  | nil =>
      -- no workflow is at rank zero
      obtain ⟨trig, sittingConfirmed, foodLow, pc⟩ := w
      cases pc <;> simp [Wf.rank] at hmany
  | cons a rest ih =>
      obtain ⟨s₁, happ, hrun⟩ := Machine.run_cons_inv hrun
      by_cases ha : ∃ o, a = .feed t o
      · obtain ⟨o, rfl⟩ := ha
        obtain ⟨w₀, hw₀, rfl⟩ := State.feed_cases happ
        obtain rfl : w₀ = w := TaskPc.feeding.inj (hw₀.symm.trans hw)
        cases hr : (wfStep cfg t o w₀ s.world).1 with
        | none =>
            -- this very step gives the mutex
            have hrel := (wfStep_returns ..).mp hr
            refine Nat.lt_of_lt_of_le ?_ (run_releases hrun t)
            simp [State.releases, wfStep_trace, wfEvent, hrel,
              Event.isRelease]
        | some w' =>
            have hlt := wfStep_rank hr
            have hcount : (Action.feed t o :: rest).countP (·.isFeed t)
                = rest.countP (·.isFeed t) + 1 := by
              simp [Action.isFeed]
            have hw' := State.setTask_self
              (s := { s with world := (wfStep cfg t o w₀ s.world).2 })
              (t := t) (afterWf (some w'))
            rw [hr] at hrun happ
            exact Nat.lt_of_le_of_lt (State.apply_releases happ t)
              (ih hw' hrun (by omega))
      · have ha' : a.isFeed t = false := by
          cases a with
          | feed u o =>
              refine beq_false_of_ne fun hu => ha ⟨o, by rw [hu]⟩
          | _ => rfl
        have hw₁ := State.apply_feeding hw happ fun o he => ha ⟨o, he⟩
        rw [List.countP_cons_of_neg (by simp [ha'])] at hmany
        exact Nat.lt_of_le_of_lt (State.apply_releases happ t)
          (ih hw₁ hrun hmany)

/-- Feeds exclude one another and never wedge the feeder. In every
reachable state at most one task is past the guard, and it is the one
that holds the mutex; the trace is a sequence of blocks, each released
once by the task that opened it. With nobody past the guard the next
trigger is let in; with somebody there it is sent away and the mutex
stays held. A workflow past the guard is never blocked, and in every
interleaving it has given the mutex after at most `Wf.rank` steps of its
own. -/
theorem feed_workflows_exclusive (hr : (feeder cfg).Reachable s) :
    (∀ t u, (s.task t).isFeeding = true → (s.task u).isFeeding = true → t = u)
      ∧ MutexHeld s
      ∧ Bracketed s
      ∧ ((∀ u, (s.task u).isFeeding = false) → ∀ t tr,
          s.task t = .attempt tr →
          s.apply cfg (.attempt t) = some (s.start t tr))
      ∧ (∀ u, (s.task u).isFeeding = true → ∀ t tr, s.task t = .attempt tr →
          s.apply cfg (.attempt t) = some (s.ignore t tr u)
            ∧ (s.ignore t tr u).world.feedMutex = some u)
      ∧ ∀ t w, s.task t = .feeding w →
          (∀ o, ∃ s', s.apply cfg (.feed t o) = some s')
            ∧ ∀ acts s', (feeder cfg).run s acts = some s' →
                w.rank cfg ≤ acts.countP (·.isFeed t) →
                s.releases t < s'.releases t := by
  have hm := mutexHeld_reachable hr
  refine ⟨fun t u => hm.sole, hm, bracketed_reachable hr, ?_, ?_, ?_⟩
  · intro hout t tr hat
    have hfree : s.world.feedMutex = none := by
      rw [Option.eq_none_iff_forall_ne_some]
      intro u hu
      rw [hm u, hout u] at hu
      cases hu
    show s.attempt t = _
    simp only [State.attempt, hat, hfree]
  · intro u hu t tr hat
    have hheld := (hm u).mpr hu
    refine ⟨?_, hheld⟩
    show s.attempt t = _
    simp only [State.attempt, hat, hheld]
  · intro t w hw
    refine ⟨fun o => ?_, fun acts s' hrun => run_releases_lt hw hrun⟩
    show ∃ s', s.feed cfg t o = some s'
    simp only [State.feed, hw]
    exact ⟨_, rfl⟩

/-- The rule where a quick feed meets a scheduled one at the guard: it is
sent away and the schedule task keeps the mutex. -/
theorem feed_workflows_exclusive_busy :
    ∃ s, (feeder .default).run State.init (busyRun.take 5) = some s
      ∧ s.apply .default (.attempt .command)
          = some (s.ignore .command (Command.trigger 0 ⟨30, true⟩) .schedule)
      ∧ (s.ignore .command (Command.trigger 0 ⟨30, true⟩)
          .schedule).world.feedMutex = some .schedule := by
  obtain ⟨s, hs⟩ :
      ∃ s, (feeder .default).run State.init (busyRun.take 5) = some s :=
    ⟨_, rfl⟩
  have hr : (feeder .default).Reachable s := Machine.reachable_of_run hs
  refine ⟨s, hs, ?_⟩
  obtain rfl := Option.some.inj hs
  exact (feed_workflows_exclusive hr).2.2.2.2.1 .schedule rfl .command _ rfl

end SitNChow
