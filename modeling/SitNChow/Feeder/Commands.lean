/-
Feed commands from the app: what becomes of a value that an
acknowledging DELETE removes, and how often one write can feed.

# Removed and settled

A round reads the register, deletes it, and only then asks for the feed
mutex. The value removed may be a later write than the one read, and the
mutex may be held; neither is undone. What does hold in every reachable
state is `removed_command_settled`: when the value removed is the one
the round read, the round's own trigger is still at the guard, or was
let in with that command's arguments, or was sent away because the
schedule task's workflow held the mutex.

# Started at most once

The outcome of the DELETE is not looked at, so a value that survives it
is read again. `AckEffective` is the guard under which no write feeds
twice: whenever a workflow starts from a command, the register no longer
holds the write it was read from.
-/
import SitNChow.Feeder.Steps

namespace SitNChow

open Kit

variable {cfg : Config} {s s' : State} {t : FeedTask} {id : Nat}

-- ============================================== removed values settle

/-- A value removed by the round that read it: its trigger is at the
guard, was let in, or was sent away while the schedule task's workflow
held the mutex. -/
def Settled (s : State) (id : Nat) (v : CJson) : Prop :=
  ∃ c, pendingCommand v = some c
    ∧ (s.task .command = .attempt (c.trigger id)
      ∨ Event.started .command (c.trigger id) ∈ s.world.trace
      ∨ Event.ignored .command (c.trigger id) .schedule ∈ s.world.trace)

/-- The invariant behind it: write numbers are fresh, an acknowledgement
carries the command of the value it read, and values removed are
settled. -/
structure Acked (s : State) : Prop where
  mutex : MutexHeld s
  pending_lt : ∀ id v, s.pending = some (id, v) → id < s.writes
  ack_lt : ∀ id c, s.task .command = .ack id c → id < s.writes
  ack_read : ∀ id c v, s.task .command = .ack id c →
    s.pending = some (id, v) → pendingCommand v = some c
  settled : ∀ id v, Event.removed id id v ∈ s.world.trace → Settled s id v

theorem acked_init : Acked State.init where
  mutex := mutexHeld_init
  pending_lt := fun _ _ h => nomatch h
  ack_lt := fun _ _ h => nomatch h
  ack_read := fun _ _ _ h => nomatch h
  settled := fun _ _ h => nomatch h

/-- What has settled stays settled while a trigger at the guard stays
there or has its outcome recorded. -/
theorem Settled.keep {v : CJson} (h : Settled s id v)
    (hat : ∀ tr, s.task .command = .attempt tr →
      s'.task .command = .attempt tr
        ∨ Event.started .command tr ∈ s'.world.trace
        ∨ Event.ignored .command tr .schedule ∈ s'.world.trace)
    (htrace : ∀ e ∈ s.world.trace, e ∈ s'.world.trace) : Settled s' id v := by
  obtain ⟨c, hc, h | h | h⟩ := h
  · exact ⟨c, hc, hat _ h⟩
  · exact ⟨c, hc, .inr (.inl (htrace _ h))⟩
  · exact ⟨c, hc, .inr (.inr (htrace _ h))⟩

/-- A step that leaves the register alone, enters no acknowledgement and
removes nothing keeps the invariant. -/
theorem Acked.frame (h : Acked s) (hm : MutexHeld s')
    (hp : s'.pending = s.pending) (hw : s'.writes = s.writes)
    (hack : ∀ id c, s'.task .command = .ack id c →
      s.task .command = .ack id c)
    (hat : ∀ tr, s.task .command = .attempt tr →
      s'.task .command = .attempt tr
        ∨ Event.started .command tr ∈ s'.world.trace
        ∨ Event.ignored .command tr .schedule ∈ s'.world.trace)
    (htrace : ∀ e ∈ s.world.trace, e ∈ s'.world.trace)
    (hrem : ∀ id v, Event.removed id id v ∈ s'.world.trace →
      Event.removed id id v ∈ s.world.trace) : Acked s' where
  mutex := hm
  pending_lt := fun id v hv => by
    rw [hw]
    exact h.pending_lt id v (by rw [← hp, hv])
  ack_lt := fun id c hc => by
    rw [hw]
    exact h.ack_lt id c (hack id c hc)
  ack_read := fun id c v hc hv =>
    h.ack_read id c v (hack id c hc) (by rw [← hp, hv])
  settled := fun id v hr => (h.settled id v (hrem id v hr)).keep hat htrace

/-- A workflow's own events are no removals. -/
theorem wfEvent_ne_removed {w : Wf} {e : Event}
    (he : e ∈ (wfEvent cfg t w).toList) (read write : Nat) (v : CJson) :
    e ≠ .removed read write v := by
  intro hrem
  subst hrem
  obtain ⟨trig, sittingConfirmed, foodLow, pc⟩ := w
  cases pc with
  | dispense d => cases d <;> simp [wfEvent] at he
  | notifyDone | notifyLow =>
      simp only [wfEvent] at he
      split at he <;> simp at he
  | _ => simp [wfEvent] at he

theorem Acked.appWrite (h : Acked s) (hm : MutexHeld (s.appWrite v)) :
    Acked (s.appWrite v) where
  mutex := hm
  pending_lt := fun id u hu => by
    obtain ⟨rfl, -⟩ := Prod.mk.inj (Option.some.inj hu)
    exact Nat.lt_succ_self _
  ack_lt := fun id c hc => Nat.lt_succ_of_lt (h.ack_lt id c hc)
  ack_read := fun id c u hc hu => by
    -- the new write's number is not the one that was read
    obtain ⟨rfl, -⟩ := Prod.mk.inj (Option.some.inj hu)
    exact absurd (h.ack_lt _ c hc) (Nat.lt_irrefl _)
  settled := fun id u hr => (h.settled id u hr).keep (fun _ hat => .inl hat)
    fun _ he => he

theorem Acked.get (h : Acked s) {ok : Bool} (happ : s.get ok = some s')
    (hm : MutexHeld s') : Acked s' := by
  obtain ⟨hidle, rfl | ⟨id, v, c, hp, hc, rfl⟩⟩ := State.get_cases happ
  · exact h
  · refine ⟨hm, h.pending_lt, ?_, ?_, fun id u hr => (h.settled id u hr).keep
      (fun tr hat => ?_) fun _ he => he⟩
    · intro id' c' hack
      rw [State.setTask_self] at hack
      cases hack
      exact h.pending_lt _ _ hp
    · intro id' c' u hack hu
      rw [State.setTask_self] at hack
      cases hack
      obtain ⟨-, rfl⟩ := Prod.mk.inj (Option.some.inj (hp.symm.trans hu))
      exact hc
    · rw [hidle] at hat
      cases hat

theorem Acked.delete (h : Acked s) {ok : Bool} (happ : s.delete ok = some s')
    (hm : MutexHeld s') : Acked s' := by
  obtain ⟨id, c, hack, ⟨write, v, -, hp, rfl⟩ | ⟨-, rfl⟩⟩ :=
    State.delete_cases happ
  · have hold : ∀ tr, s.task .command ≠ .attempt tr := by
      intro tr hat
      rw [hack] at hat
      cases hat
    refine ⟨hm, fun _ _ hv => (nomatch hv), fun id' c' hc' => ?_,
      fun _ _ _ _ hv => (nomatch hv), fun id' u hr => ?_⟩
    · rw [State.remove_task, State.setTask_self] at hc'
      cases hc'
    · rcases List.mem_cons.mp hr with he | hr
      · cases he
        refine ⟨c, h.ack_read _ _ _ hack hp, .inl ?_⟩
        rw [State.remove_task, State.setTask_self]
      · exact (h.settled id' u hr).keep (fun tr hat => absurd hat (hold tr))
          fun _ he => List.mem_cons_of_mem _ he
  · refine h.frame hm rfl rfl (fun id' c' hc' => ?_) (fun tr hat => ?_)
      (fun _ he => he) fun _ _ hr => hr
    · rw [State.setTask_self] at hc'
      cases hc'
    · rw [hack] at hat
      cases hat

theorem Acked.attempt (h : Acked s) (happ : s.attempt t = some s')
    (hm : MutexHeld s') : Acked s' := by
  obtain ⟨tr, hat, hcase⟩ := State.attempt_cases happ
  have hmem : ∀ e ∈ s.world.trace, ∀ e', e ∈ e' :: s.world.trace :=
    fun _ he _ => List.mem_cons_of_mem _ he
  obtain ⟨hfree, rfl⟩ | ⟨holder, hheld, rfl⟩ := hcase
  · refine h.frame hm rfl rfl (fun id c hc => ?_) (fun tr' hat' => ?_)
      (fun e he => hmem e he _) fun id v hr => ?_
    · cases t with
      | command =>
          have := (State.setTask_self (s := { s with world := _ }) _).symm.trans hc
          cases this
      | schedule => exact hc
    · cases t with
      | command =>
          rw [hat] at hat'
          cases hat'
          exact .inr (.inl List.mem_cons_self)
      | schedule => exact .inl hat'
    · exact (List.mem_cons.mp hr).resolve_left fun he => nomatch he
  · refine h.frame hm rfl rfl (fun id c hc => ?_) (fun tr' hat' => ?_)
      (fun e he => hmem e he _) fun id v hr => ?_
    · cases t with
      | command =>
          have := (State.setTask_self (s := { s with world := _ }) _).symm.trans hc
          cases this
      | schedule => exact hc
    · cases t with
      | command =>
          -- the holder is in the workflow, this task is not
          rw [hat] at hat'
          cases hat'
          have hin := (h.mutex holder).mp hheld
          cases holder with
          | command =>
              rw [hat] at hin
              cases hin
          | schedule => exact .inr (.inr List.mem_cons_self)
      | schedule => exact .inl hat'
    · exact (List.mem_cons.mp hr).resolve_left fun he => nomatch he

theorem Acked.feed (h : Acked s) {o : Sensed} (happ : s.feed cfg t o = some s')
    (hm : MutexHeld s') : Acked s' := by
  obtain ⟨w, hw, rfl⟩ := State.feed_cases happ
  refine h.frame hm rfl rfl (fun id c hc => ?_) (fun tr hat => ?_)
    (fun e he => ?_) fun id v hr => ?_
  · cases t with
    | command =>
        rw [State.setTask_self] at hc
        cases hr : (wfStep cfg .command o w s.world).1 <;>
          rw [hr] at hc <;> cases hc
    | schedule => exact hc
  · cases t with
    | command =>
        rw [hw] at hat
        cases hat
    | schedule => exact .inl hat
  · rw [State.setTask_world, wfStep_trace]
    exact List.mem_append_right _ he
  · rw [State.setTask_world, wfStep_trace] at hr
    exact (List.mem_append.mp hr).resolve_left fun he =>
      wfEvent_ne_removed he _ _ _ rfl

/-- Every step keeps the invariant. -/
theorem Acked.step (h : Acked s) {a : Action}
    (happ : s.apply cfg a = some s') : Acked s' := by
  have hm : MutexHeld s' := h.mutex.step happ
  cases a with
  | appWrite v =>
      obtain rfl := Option.some.inj happ
      exact h.appWrite hm
  | fire grams =>
      obtain ⟨-, rfl⟩ := State.fire_cases happ
      exact h.frame hm rfl rfl (fun _ _ hc => hc) (fun _ hat => .inl hat)
        (fun _ he => he) fun _ _ hr => hr
  | get ok => exact h.get happ hm
  | delete ok => exact h.delete happ hm
  | attempt t => exact h.attempt happ hm
  | feed t o => exact h.feed happ hm
  | press pressed =>
      obtain rfl := Option.some.inj happ
      exact h.frame hm rfl rfl (fun _ _ hc => hc) (fun _ hat => .inl hat)
        (fun _ he => he) fun _ _ hr => hr
  | cameraPoll val =>
      obtain ⟨-, ⟨-, rfl⟩ | ⟨v, -, rfl⟩⟩ := State.cameraPoll_cases happ
      · exact h
      · exact h.frame hm rfl rfl (fun _ _ hc => hc) (fun _ hat => .inl hat)
          (fun _ he => he) fun _ _ hr => hr
  | cameraCall =>
      obtain ⟨b, -, rfl⟩ := State.cameraCall_cases happ
      exact h.frame hm rfl rfl (fun _ _ hc => hc) (fun _ hat => .inl hat)
        (fun _ he => he) fun _ _ hr => hr

/-- In every reachable state, a value that a DELETE removed and that is
the one its round had read is settled. -/
theorem removed_command_settled (hr : (feeder cfg).Reachable s) {v : CJson}
    (hrem : Event.removed id id v ∈ s.world.trace) : Settled s id v :=
  (hr.invariant (I := Acked) acked_init
    fun _ _ _ h _ happ => h.step happ).settled id v hrem

/-- The value the app writes for a quick feed. -/
def quickFeed (grams : Rat) : CJson :=
  .object [(cstr "action", .string (cstr "dispense")),
    (cstr "grams", .number grams), (cstr "force", .bool true)]

/-- A scheduled feed holds the mutex while a command is read, deleted
and sent away. -/
def busyRun : List Action :=
  [.fire 60, .attempt .schedule, .appWrite (quickFeed 30), .get true,
    .delete true, .attempt .command]

/-- A second command is written between the GET and the DELETE of the
first one's round, which then feeds. -/
def overwrittenRun : List Action :=
  [.appWrite (quickFeed 1), .get true, .appWrite (quickFeed 50),
    .delete true, .attempt .command]
    ++ List.replicate 91 (.feed .command ⟨true, true, 5⟩)

/-- The rule on the busy run: the command removed has settled. -/
theorem removed_command_settled_busy :
    ∃ s, (feeder .default).run State.init busyRun = some s
      ∧ Settled s 0 (quickFeed 30) := by
  obtain ⟨s, hs⟩ : ∃ s, (feeder .default).run State.init busyRun = some s :=
    ⟨_, rfl⟩
  have hr : (feeder .default).Reachable s := Machine.reachable_of_run hs
  obtain rfl := Option.some.inj hs
  exact ⟨_, rfl, removed_command_settled hr (.tail _ (.head _))⟩

/-- The writes removed, each with the write its round had read. -/
def State.removedWrites (s : State) : List (Nat × Nat) :=
  s.world.trace.filterMap fun
    | .removed read write _ => some (read, write)
    | _ => none

/-- The writes that have started a workflow, newest first. -/
def State.startedWrites (s : State) : List Nat :=
  s.world.trace.filterMap fun
    | .started _ tr => tr.write
    | _ => none

/-- The command task is back in its loop and the register is empty. -/
def State.quiet (s : State) : Bool :=
  match s.task .command with
  | .idle => s.pending.isNone
  | _ => false

/-- A removed command can start nothing: with the mutex held (write 0 of
the busy run), and when another one was read (write 1 of the other
run, removed by the round that had read write 0). -/
theorem removed_not_started :
    ((feeder .default).run State.init busyRun).map
        (fun s => (s.removedWrites, s.startedWrites, s.quiet))
      = some ([(0, 0)], [], true)
    ∧ ((feeder .default).run State.init overwrittenRun).map
        (fun s => (s.removedWrites, s.startedWrites, s.quiet))
      = some ([(0, 1)], [0], true) := by
  decide +kernel

-- ================================================ starts and runs

/-- A workflow is let in for write `id`. -/
def Event.startsWrite (id : Nat) : Event → Bool
  | .started _ tr => tr.write == some id
  | _ => false

/-- `dispenser_run` is called for write `id`. -/
def Event.runsWrite (id : Nat) : Event → Bool
  | .dispenserRun _ tr => tr.write == some id
  | _ => false

/-- How many workflows write `id` has started. -/
def State.starts (id : Nat) (s : State) : Nat :=
  s.world.trace.countP (·.startsWrite id)

/-- How many `dispenser_run` calls write `id` has led to. -/
def State.runs (id : Nat) (s : State) : Nat :=
  s.world.trace.countP (·.runsWrite id)

/-- The workflow has not called `dispenser_run` yet. -/
def WfPc.beforeRun : WfPc → Bool
  | .beep | .tofWait | .streamStart | .starting | .sitting | .streamStop
  | .stopping | .run => true
  | _ => false

/-- The `dispenser_run` calls for write `id` that a task in the workflow
may still make. -/
def TaskPc.owes (id : Nat) : TaskPc → Nat
  | .feeding w => if w.trig.write = some id ∧ w.pc.beforeRun = true then 1 else 0
  | _ => 0

/-- A workflow step starts nothing. -/
theorem wfEvent_starts (cfg : Config) (t : FeedTask) (w : Wf) (id : Nat) :
    (wfEvent cfg t w).toList.countP (·.startsWrite id) = 0 := by
  obtain ⟨trig, sittingConfirmed, foodLow, pc⟩ := w
  cases pc with
  | dispense d => cases d <;> rfl
  | notifyDone | notifyLow =>
      simp only [wfEvent]
      split <;> rfl
  | _ => rfl

/-- A workflow step makes the call it owes, or goes on owing it, or
aborts. -/
theorem wfStep_owes (cfg : Config) (t : FeedTask) (o : Sensed) (w : Wf)
    (x : World) (id : Nat) :
    (wfEvent cfg t w).toList.countP (·.runsWrite id)
        + (afterWf (wfStep cfg t o w x).1).owes id
      ≤ (TaskPc.feeding w).owes id := by
  obtain ⟨trig, sittingConfirmed, foodLow, pc⟩ := w
  cases pc with
  | dispense d =>
      cases d <;>
        simp [wfEvent, wfStep, afterWf, TaskPc.owes, WfPc.beforeRun,
          Event.runsWrite]
  | notifyDone | notifyLow =>
      simp only [wfEvent, wfStep]
      split <;> simp [afterWf, TaskPc.owes, WfPc.beforeRun, Event.runsWrite]
        <;> split <;> simp
  | run =>
      simp [wfEvent, wfStep, afterWf, TaskPc.owes, WfPc.beforeRun,
        Event.runsWrite, List.countP_cons]
  | beep =>
      cases hf : trig.force <;>
        simp [wfEvent, wfStep, afterWf, TaskPc.owes, WfPc.beforeRun, hf]
  | tofWait =>
      cases ho : o.petDetected <;>
        simp [wfEvent, wfStep, afterWf, TaskPc.owes, WfPc.beforeRun, ho]
  | _ =>
      simp [wfEvent, wfStep, afterWf, TaskPc.owes, WfPc.beforeRun,
        Event.runsWrite]

theorem State.starts_start (tr : Trigger) (id : Nat) :
    (s.start t tr).starts id
      = s.starts id + if tr.write = some id then 1 else 0 := by
  simp [State.starts, State.start, List.countP_cons, Event.startsWrite]

theorem State.runs_start (tr : Trigger) (id : Nat) :
    (s.start t tr).runs id = s.runs id := by
  simp [State.runs, State.start, Event.runsWrite]

theorem State.starts_ignore (tr : Trigger) (holder : FeedTask) (id : Nat) :
    (s.ignore t tr holder).starts id = s.starts id := by
  simp [State.starts, State.ignore, Event.startsWrite]

theorem State.runs_ignore (tr : Trigger) (holder : FeedTask) (id : Nat) :
    (s.ignore t tr holder).runs id = s.runs id := by
  simp [State.runs, State.ignore, Event.runsWrite]

/-- Calls made and calls still owed never exceed the starts. -/
def RunsOwed (s : State) : Prop :=
  ∀ id, s.runs id + (s.task .schedule).owes id + (s.task .command).owes id
    ≤ s.starts id

/-- Moving one task to a place that owes no more keeps the bound. -/
theorem RunsOwed.move (h : RunsOwed s) {pc : TaskPc}
    (htask : s'.task = (s.setTask t pc).task)
    (hcount : ∀ id, s'.runs id + pc.owes id + s.starts id
      ≤ s.runs id + (s.task t).owes id + s'.starts id) : RunsOwed s' := by
  intro id
  have hid := h id
  have hc := hcount id
  rw [htask]
  cases t with
  | schedule =>
      rw [State.setTask_self, State.setTask_ne pc (by decide)]
      omega
  | command =>
      rw [State.setTask_self, State.setTask_ne pc (by decide)]
      omega

theorem RunsOwed.step (h : RunsOwed s) {a : Action}
    (happ : s.apply cfg a = some s') : RunsOwed s' := by
  cases a with
  | appWrite v =>
      obtain rfl := Option.some.inj happ
      exact h
  | fire grams =>
      obtain ⟨hidle, rfl⟩ := State.fire_cases happ
      exact h.move rfl fun id => by rw [hidle]; exact Nat.le_refl _
  | get ok =>
      obtain ⟨hidle, rfl | ⟨id, v, c, -, -, rfl⟩⟩ := State.get_cases happ
      · exact h
      · exact h.move rfl fun id => by rw [hidle]; exact Nat.le_refl _
  | delete ok =>
      obtain ⟨id, c, hack, ⟨write, v, -, -, rfl⟩ | ⟨-, rfl⟩⟩ :=
        State.delete_cases happ
      · exact h.move rfl fun id => by
          rw [hack]
          simp [State.runs, State.starts, State.remove, TaskPc.owes,
            Event.runsWrite, Event.startsWrite]
      · exact h.move rfl fun id => by rw [hack]; exact Nat.le_refl _
  | attempt t =>
      obtain ⟨tr, hat, ⟨-, rfl⟩ | ⟨holder, -, rfl⟩⟩ := State.attempt_cases happ
      · refine h.move rfl fun id => ?_
        rw [hat, State.starts_start, State.runs_start]
        simp only [TaskPc.owes, WfPc.beforeRun, and_true]
        omega
      · refine h.move rfl fun id => ?_
        rw [hat, State.starts_ignore, State.runs_ignore]
        exact Nat.le_refl _
  | feed t o =>
      obtain ⟨w, hw, rfl⟩ := State.feed_cases happ
      refine h.move rfl fun id => ?_
      have howes := wfStep_owes cfg t o w s.world id
      have hstarts := wfEvent_starts cfg t w id
      rw [hw]
      simp only [State.runs, State.starts, State.setTask_world, wfStep_trace,
        List.countP_append]
      omega
  | press pressed =>
      obtain rfl := Option.some.inj happ
      exact h
  | cameraPoll val =>
      obtain ⟨-, ⟨-, rfl⟩ | ⟨v, -, rfl⟩⟩ := State.cameraPoll_cases happ
      · exact h
      · exact h
  | cameraCall =>
      obtain ⟨b, -, rfl⟩ := State.cameraCall_cases happ
      exact h

/-- No write leads to more `dispenser_run` calls than it starts
workflows. -/
theorem runs_le_starts (hr : (feeder cfg).Reachable s) (id : Nat) :
    s.runs id ≤ s.starts id := by
  have h := hr.invariant (I := RunsOwed) (fun _ => Nat.le_refl _)
    (fun _ _ _ h _ happ => h.step happ) id
  omega

-- ================================================ at most one start

/-- Whenever the guard lets a command's workflow in, the register no
longer holds the write the command was read from: the DELETE took
effect, or the app has written since. -/
def AckEffective (s : State) (a : Action) : Prop :=
  a = .attempt .command → s.world.feedMutex = none →
    ∀ tr id v, s.task .command = .attempt tr → s.pending = some (id, v) →
      tr.write ≠ some id

/-- A write that exists and has started nothing. -/
def Unstarted (s : State) (id : Nat) : Prop :=
  id < s.writes ∧ s.starts id = 0

/-- The invariant: nothing has started twice, and what is in the
register or on its way to the guard has not started at all. -/
structure StartedOnce (s : State) : Prop where
  once : ∀ id, s.starts id ≤ 1
  fresh : ∀ id, s.writes ≤ id → s.starts id = 0
  pending : ∀ id v, s.pending = some (id, v) → Unstarted s id
  ack : ∀ id c, s.task .command = .ack id c → Unstarted s id
  guard : ∀ tr id, s.task .command = .attempt tr → tr.write = some id →
    Unstarted s id
  schedule : ∀ tr, s.task .schedule = .attempt tr → tr.write = none

theorem startedOnce_init : StartedOnce State.init where
  once := fun _ => Nat.zero_le _
  fresh := fun _ _ => rfl
  pending := fun _ _ h => nomatch h
  ack := fun _ _ h => nomatch h
  guard := fun _ _ h => nomatch h
  schedule := fun _ h => nomatch h

/-- A step that starts nothing, writes nothing and puts no write where
it was not keeps the invariant. -/
theorem StartedOnce.frame (h : StartedOnce s)
    (hstarts : ∀ id, s'.starts id = s.starts id) (hw : s'.writes = s.writes)
    (hp : ∀ id v, s'.pending = some (id, v) → Unstarted s id)
    (hack : ∀ id c, s'.task .command = .ack id c → Unstarted s id)
    (hguard : ∀ tr id, s'.task .command = .attempt tr →
      tr.write = some id → Unstarted s id)
    (hsched : ∀ tr, s'.task .schedule = .attempt tr → tr.write = none) :
    StartedOnce s' := by
  have hun : ∀ id, Unstarted s id → Unstarted s' id := by
    intro id hid
    exact ⟨by rw [hw]; exact hid.1, by rw [hstarts]; exact hid.2⟩
  refine ⟨fun id => ?_, fun id hid => ?_, fun id v hv => hun id (hp id v hv),
    fun id c hc => hun id (hack id c hc),
    fun tr id ht hid => hun id (hguard tr id ht hid), hsched⟩
  · rw [hstarts]
    exact h.once id
  · rw [hstarts]
    exact h.fresh id (by rw [← hw]; exact hid)

theorem StartedOnce.appWrite (h : StartedOnce s) (v : CJson) :
    StartedOnce (s.appWrite v) := by
  have hun : ∀ id, Unstarted s id → Unstarted (s.appWrite v) id :=
    fun id hid => ⟨Nat.lt_succ_of_lt hid.1, hid.2⟩
  refine ⟨h.once, fun id hid => h.fresh id (Nat.le_of_succ_le hid),
    fun id u hu => ?_, fun id c hc => hun id (h.ack id c hc),
    fun tr id ht hid => hun id (h.guard tr id ht hid), h.schedule⟩
  obtain ⟨rfl, -⟩ := Prod.mk.inj (Option.some.inj hu)
  exact ⟨Nat.lt_succ_self _, h.fresh _ (Nat.le_refl _)⟩

theorem StartedOnce.attempt (h : StartedOnce s) (hg : AckEffective s (.attempt t))
    (happ : s.attempt t = some s') : StartedOnce s' := by
  obtain ⟨tr, hat, ⟨hfree, rfl⟩ | ⟨holder, -, rfl⟩⟩ := State.attempt_cases happ
  · have hstarts := fun id => State.starts_start (s := s) (t := t) tr id
    cases t with
    | schedule =>
        have hanon := h.schedule tr hat
        refine h.frame (fun id => ?_) rfl h.pending h.ack h.guard
          fun tr' ht => ?_
        · rw [hstarts, hanon]
          simp
        · have := (State.setTask_self (s := { s with world := _ }) _).symm.trans ht
          cases this
    | command =>
        have hne : ∀ id v, s.pending = some (id, v) → tr.write ≠ some id :=
          fun id v => hg rfl hfree tr id v hat
        have hplace : (s.start .command tr).task .command = .feeding _ :=
          State.setTask_self _
        refine ⟨fun id => ?_, fun id hid => ?_, fun id v hv => ?_,
          fun id c hc => ?_, fun tr' id ht _ => ?_, h.schedule⟩
        · rw [hstarts]
          split
          · next hid => rw [(h.guard tr id hat hid).2]
          · exact h.once id
        · rw [hstarts, if_neg, h.fresh id hid]
          intro hw
          exact absurd (h.guard tr id hat hw).1 (Nat.not_lt_of_ge hid)
        · refine ⟨(h.pending id v hv).1, ?_⟩
          rw [hstarts, if_neg (hne id v hv)]
          exact (h.pending id v hv).2
        · rw [hplace] at hc
          cases hc
        · rw [hplace] at ht
          cases ht
  · have hstarts := fun id =>
      State.starts_ignore (s := s) (t := t) tr holder id
    have hplace : (s.ignore t tr holder).task t = .idle := State.setTask_self _
    cases t with
    | schedule =>
        refine h.frame hstarts rfl h.pending h.ack h.guard fun tr' ht => ?_
        rw [hplace] at ht
        cases ht
    | command =>
        refine h.frame hstarts rfl h.pending (fun id c hc => ?_)
          (fun tr' id ht _ => ?_) h.schedule
        · rw [hplace] at hc
          cases hc
        · rw [hplace] at ht
          cases ht

theorem StartedOnce.feed (h : StartedOnce s) {o : Sensed}
    (happ : s.feed cfg t o = some s') : StartedOnce s' := by
  obtain ⟨w, hw, rfl⟩ := State.feed_cases happ
  have hstarts : ∀ id, ({ s with world := (wfStep cfg t o w s.world).2 }.setTask t
      (afterWf (wfStep cfg t o w s.world).1)).starts id = s.starts id := by
    intro id
    rw [State.starts, State.setTask_world, wfStep_trace, List.countP_append,
      wfEvent_starts, Nat.zero_add]
    rfl
  have hplace : ∀ tr id c, afterWf (wfStep cfg t o w s.world).1 ≠ .attempt tr
      ∧ afterWf (wfStep cfg t o w s.world).1 ≠ .ack id c := by
    intro tr id c
    cases (wfStep cfg t o w s.world).1 <;> simp [afterWf]
  cases t with
  | schedule =>
      refine h.frame hstarts rfl h.pending h.ack h.guard fun tr ht => ?_
      rw [State.setTask_self] at ht
      exact absurd ht (hplace tr 0 ⟨0, false⟩).1
  | command =>
      refine h.frame hstarts rfl h.pending (fun id c hc => ?_)
        (fun tr id ht _ => ?_) h.schedule
      · rw [State.setTask_self] at hc
        exact absurd hc (hplace ⟨none, 0, [], false⟩ id c).2
      · rw [State.setTask_self] at ht
        exact absurd ht (hplace tr id ⟨0, false⟩).1

/-- Every step that meets the guard keeps the invariant. -/
theorem StartedOnce.step (h : StartedOnce s) {a : Action}
    (hg : AckEffective s a) (happ : s.apply cfg a = some s') :
    StartedOnce s' := by
  cases a with
  | appWrite v =>
      obtain rfl := Option.some.inj happ
      exact h.appWrite v
  | fire grams =>
      obtain ⟨-, rfl⟩ := State.fire_cases happ
      refine h.frame (fun _ => rfl) rfl h.pending h.ack h.guard fun tr ht => ?_
      rw [State.setTask_self] at ht
      cases ht
      rfl
  | get ok =>
      obtain ⟨-, rfl | ⟨id, v, c, hp, -, rfl⟩⟩ := State.get_cases happ
      · exact h
      · refine h.frame (fun _ => rfl) rfl h.pending (fun id' c' hc => ?_)
          (fun tr id' ht _ => ?_) h.schedule
        · rw [State.setTask_self] at hc
          cases hc
          exact h.pending id v hp
        · rw [State.setTask_self] at ht
          cases ht
  | delete ok =>
      obtain ⟨id, c, hack, ⟨write, v, -, -, rfl⟩ | ⟨-, rfl⟩⟩ :=
        State.delete_cases happ
      · refine h.frame (fun id' => ?_) rfl (fun _ _ hv => nomatch hv)
          (fun id' c' hc => ?_) (fun tr id' ht hid => ?_) h.schedule
        · simp [State.starts, State.remove, Event.startsWrite]
        · rw [State.remove_task, State.setTask_self] at hc
          cases hc
        · rw [State.remove_task, State.setTask_self] at ht
          cases ht
          cases hid
          exact h.ack id c hack
      · refine h.frame (fun _ => rfl) rfl h.pending (fun id' c' hc => ?_)
          (fun tr id' ht hid => ?_) h.schedule
        · rw [State.setTask_self] at hc
          cases hc
        · rw [State.setTask_self] at ht
          cases ht
          cases hid
          exact h.ack id c hack
  | attempt t => exact h.attempt hg happ
  | feed t o => exact h.feed happ
  | press pressed =>
      obtain rfl := Option.some.inj happ
      exact h.frame (fun _ => rfl) rfl h.pending h.ack h.guard h.schedule
  | cameraPoll val =>
      obtain ⟨-, ⟨-, rfl⟩ | ⟨v, -, rfl⟩⟩ := State.cameraPoll_cases happ
      · exact h
      · exact h.frame (fun _ => rfl) rfl h.pending h.ack h.guard h.schedule
  | cameraCall =>
      obtain ⟨b, -, rfl⟩ := State.cameraCall_cases happ
      exact h.frame (fun _ => rfl) rfl h.pending h.ack h.guard h.schedule

/-- In every run whose acknowledgements are effective, no write starts
more than one workflow or leads to more than one `dispenser_run`. -/
theorem command_fed_at_most_once (hr : (feeder cfg).ReachableBy AckEffective s)
    (id : Nat) : s.starts id ≤ 1 ∧ s.runs id ≤ 1 := by
  have honce := (hr.invariant (I := StartedOnce) startedOnce_init
    fun _ _ _ h hg happ => h.step hg happ).once id
  have hruns := runs_le_starts hr.reachable id
  omega

/-- One quick feed whose acknowledgement takes effect. -/
theorem command_fed_at_most_once_quick :
    ∃ s, (feeder .default).run State.init
        [.appWrite (quickFeed 30), .get true, .delete true, .attempt .command]
        = some s
      ∧ s.starts 0 ≤ 1 ∧ s.runs 0 ≤ 1 := by
  have h₁ := Machine.ReachableBy.step (M := feeder .default)
    (G := AckEffective) (.appWrite (quickFeed 30)) .init (fun h => nomatch h) rfl
  have h₂ := Machine.ReachableBy.step (.get true) h₁ (fun h => nomatch h) rfl
  have h₃ := Machine.ReachableBy.step (.delete true) h₂ (fun h => nomatch h) rfl
  have h₄ := Machine.ReachableBy.step (.attempt .command) h₃
    (fun _ _ _ _ _ _ hp => nomatch hp) rfl
  exact ⟨_, rfl, command_fed_at_most_once h₄ 0⟩

/-- One quick feed of a gram whose first DELETE fails. -/
def unackedRun : List Action :=
  [.appWrite (quickFeed 1), .get true, .delete false, .attempt .command]
    ++ List.replicate 91 (.feed .command ⟨true, true, 5⟩)
    ++ [.get true, .delete true, .attempt .command]
    ++ List.replicate 91 (.feed .command ⟨true, true, 5⟩)

/-- The one write is read twice, starts two workflows and dispenses
twice. -/
theorem unacked_fed_twice :
    ((feeder .default).run State.init unackedRun).map
        (fun s => (s.writes, s.starts 0, s.runs 0, s.quiet))
      = some (1, 2, 2, true) := by
  decide +kernel

end SitNChow
