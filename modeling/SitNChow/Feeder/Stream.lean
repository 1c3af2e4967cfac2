/-
Who needs the camera stream. The camera poll starts and stops it on
edges of the polled `cameraActive`; a feed workflow starts it before the
sitting detector runs and stops it afterwards. Both write one flag, and
neither looks whether the other still needs it.

`StreamsAsNeeded` says what the flag should be in every state in which
nobody is inside a start or stop call; `StopsUnneeded` is the condition
on the order of steps — a stop call ends only when the other side does
not need the stream — and `streams_as_needed_iff` says it is exact.
-/
import SitNChow.Feeder.Steps

namespace SitNChow

open Kit

variable {cfg : Config} {s s' : State} {t : FeedTask}

-- ============================================================== needs

/-- Between the return of `camera_streaming_start` and the call of
`camera_streaming_stop`. -/
def WfPc.streaming : WfPc → Bool
  | .sitting | .streamStop => true
  | _ => false

/-- Inside `camera_streaming_start` or `camera_streaming_stop`. -/
def WfPc.inCall : WfPc → Bool
  | .starting | .stopping => true
  | _ => false

/-- Inside `camera_streaming_stop`. -/
def WfPc.inStop : WfPc → Bool
  | .stopping => true
  | _ => false

/-- The last `cameraActive` polled was true, or a workflow is between its
start and its stop. -/
def State.streamNeeded (s : State) : Prop :=
  s.camera.polled = true ∨ ∃ t, (s.task t).inWf WfPc.streaming = true

/-- Nobody is inside a start or stop call. -/
def State.settled (s : State) : Prop :=
  s.camera.call = none ∧ ∀ t, (s.task t).inWf WfPc.inCall = false

/-- In a settled state the camera streams exactly while somebody needs
it. -/
def StreamsAsNeeded (s : State) : Prop :=
  s.settled → (s.world.cameraStreaming = true ↔ s.streamNeeded)

/-- A stop call that ends finds the other side without need: the poll's
no workflow between its start and stop, a workflow's the poll in a call
of its own or last having read false. -/
def StopsUnneeded (s : State) : Action → Prop
  | .cameraCall => s.camera.call = some false →
      ∀ t, (s.task t).inWf WfPc.streaming = false
  | .feed t _ => (s.task t).inWf WfPc.inStop = true →
      s.camera.call = none → s.camera.polled = false
  | _ => True

-- ====================================================== one step each

/-- How a workflow step moves through its streaming section. -/
theorem wfStep_streaming (cfg : Config) (t : FeedTask) (o : Sensed) (w : Wf)
    (x : World) :
    ((afterWf (wfStep cfg t o w x).1).inWf WfPc.streaming
        = (decide (w.pc = .starting) || decide (w.pc = .sitting)))
      ∧ (afterWf (wfStep cfg t o w x).1).inWf WfPc.inCall
        = (decide (w.pc = .streamStart) || decide (w.pc = .streamStop)) := by
  obtain ⟨trig, sittingConfirmed, foodLow, pc⟩ := w
  cases pc with
  | dispense d => cases d <;> exact ⟨rfl, rfl⟩
  | beep | tofWait | notifyDone =>
      simp only [wfStep, afterWf, TaskPc.inWf]
      split <;> exact ⟨rfl, rfl⟩
  | _ => exact ⟨rfl, rfl⟩

/-- What the camera poll remembers: its state is the last value polled,
and a call it is in is for that value. -/
structure PollTracked (s : State) : Prop where
  mutex : MutexHeld s
  polled : s.camera.lastState = s.camera.polled
  call : ∀ b, s.camera.call = some b → b = s.camera.polled

theorem pollTracked_init : PollTracked State.init where
  mutex := mutexHeld_init
  polled := rfl
  call := fun _ h => nomatch h

theorem PollTracked.step (h : PollTracked s) {a : Action}
    (happ : s.apply cfg a = some s') : PollTracked s' := by
  have hm := h.mutex.step happ
  have hsame : s'.camera = s.camera → PollTracked s' := by
    intro hc
    exact ⟨hm, by rw [hc]; exact h.polled, by rw [hc]; exact h.call⟩
  cases a with
  | feed t o => exact hsame (State.feed_other happ).2.2
  | cameraPoll val =>
      obtain ⟨-, ⟨-, rfl⟩ | ⟨v, -, rfl⟩⟩ := State.cameraPoll_cases happ
      · exact h
      · refine ⟨hm, rfl, fun b hb => ?_⟩
        dsimp only at hb
        split at hb
        · exact (Option.some.inj hb).symm
        · cases hb
  | cameraCall =>
      obtain ⟨b, -, rfl⟩ := State.cameraCall_cases happ
      exact ⟨hm, h.polled, fun _ h => nomatch h⟩
  | _ =>
      exact hsame ((State.apply_other happ fun _ _ h => nomatch h).2.2
        (fun _ h => nomatch h) fun h => nomatch h).1

/-- While one task is in the workflow no other one is. -/
theorem MutexHeld.inWf_other (h : MutexHeld s) {u : FeedTask}
    (ht : (s.task t).isFeeding = true) (hu : u ≠ t) (p : WfPc → Bool) :
    (s.task u).inWf p = false := by
  cases hp : (s.task u).inWf p with
  | false => rfl
  | true => exact absurd (h.sole (TaskPc.isFeeding_of_inWf hp) ht) hu

/-- A step that leaves the flag, the camera poll and both tests of the
workflows alone keeps the property. -/
theorem StreamsAsNeeded.frame (h : StreamsAsNeeded s)
    (hflag : s'.world.cameraStreaming = s.world.cameraStreaming)
    (hcall : s'.camera.call = s.camera.call)
    (hpolled : s'.camera.polled = s.camera.polled)
    (hstream : ∀ u, (s'.task u).inWf WfPc.streaming
      = (s.task u).inWf WfPc.streaming)
    (hin : ∀ u, (s'.task u).inWf WfPc.inCall = (s.task u).inWf WfPc.inCall) :
    StreamsAsNeeded s' := by
  intro hs'
  obtain ⟨hc, hu⟩ := hs'
  have hs : s.settled :=
    ⟨by rw [← hcall, hc], fun u => by rw [← hin, hu u]⟩
  rw [hflag, h hs]
  simp only [State.streamNeeded, hpolled, hstream]

/-- What the state looks like after a workflow step. -/
theorem feed_streaming {o : Sensed} (happ : s.feed cfg t o = some s') :
    ∃ w, s.task t = .feeding w
      ∧ s'.world.cameraStreaming
        = (if w.pc = .starting then true
          else if w.pc = .stopping then false
          else s.world.cameraStreaming)
      ∧ ((s'.task t).inWf WfPc.streaming
        = (decide (w.pc = .starting) || decide (w.pc = .sitting)))
      ∧ (s'.task t).inWf WfPc.inCall
        = (decide (w.pc = .streamStart) || decide (w.pc = .streamStop)) := by
  obtain ⟨w, hw, rfl⟩ := State.feed_cases happ
  obtain ⟨hst, hin⟩ := wfStep_streaming cfg t o w s.world
  refine ⟨w, hw, wfStep_cameraStreaming .., ?_, ?_⟩
  · rw [State.setTask_self, hst]
  · rw [State.setTask_self, hin]

/-- A guarded workflow step keeps the property. -/
theorem StreamsAsNeeded.feed {o : Sensed} (hI : PollTracked s)
    (hP : StreamsAsNeeded s) (hg : StopsUnneeded s (.feed t o))
    (happ : s.feed cfg t o = some s') : StreamsAsNeeded s' := by
  obtain ⟨hother, -, hcamera⟩ := State.feed_other happ
  obtain ⟨w, hw, hflag, hst, hin⟩ := feed_streaming happ
  have hfeeding : (s.task t).isFeeding = true := by rw [hw]; rfl
  have hnone : ∀ u, u ≠ t → (s'.task u).inWf WfPc.streaming = false := by
    intro u hu
    rw [hother u hu]
    exact hI.mutex.inWf_other hfeeding hu _
  by_cases hstart : w.pc = .starting
  · -- the start call ends: the flag is set and this workflow needs it
    intro _
    rw [hflag, if_pos hstart]
    refine ⟨fun _ => .inr ⟨t, ?_⟩, fun _ => rfl⟩
    rw [hst, hstart]
    rfl
  by_cases hstop : w.pc = .stopping
  · -- the stop call ends: the flag is cleared and nobody needs it
    intro hs'
    have hc := hs'.1
    rw [hcamera] at hc
    rw [hflag, if_neg hstart, if_pos hstop]
    refine ⟨fun h => (nomatch h), fun hneed => ?_⟩
    rcases hneed with hp | ⟨u, hu⟩
    · have hstopping : (s.task t).inWf WfPc.inStop = true := by
        rw [hw]
        simp only [TaskPc.inWf, hstop, WfPc.inStop]
      rw [hcamera, hg hstopping hc] at hp
      cases hp
    · by_cases hut : u = t
      · rw [hut, hst, hstop] at hu
        cases hu
      · rw [hnone u hut] at hu
        cases hu
  by_cases henter : w.pc = .streamStart ∨ w.pc = .streamStop
  · -- entering a call: the state is not settled
    intro hs'
    have := hs'.2 t
    rw [hin] at this
    rcases henter with h | h <;> rw [h] at this <;> cases this
  · -- elsewhere the workflow stays on its side of the section
    rw [not_or] at henter
    rw [if_neg hstart, if_neg hstop] at hflag
    refine hP.frame hflag (by rw [hcamera]) (by rw [hcamera])
      (fun u => ?_) fun u => ?_
    · by_cases hut : u = t
      · rw [hut, hst, hw]
        obtain ⟨trig, sittingConfirmed, foodLow, pc⟩ := w
        cases pc <;> simp_all [TaskPc.inWf, WfPc.streaming]
      · rw [hother u hut]
    · by_cases hut : u = t
      · rw [hut, hin, hw]
        obtain ⟨trig, sittingConfirmed, foodLow, pc⟩ := w
        cases pc <;> simp_all [TaskPc.inWf, WfPc.inCall]
      · rw [hother u hut]

/-- A guarded step keeps the property. -/
theorem StreamsAsNeeded.step {a : Action} (hI : PollTracked s)
    (hP : StreamsAsNeeded s) (hg : StopsUnneeded s a)
    (happ : s.apply cfg a = some s') : StreamsAsNeeded s' := by
  cases a with
  | feed t o => exact hP.feed hI hg happ
  | cameraPoll val =>
      obtain ⟨hcall, ⟨-, rfl⟩ | ⟨v, -, rfl⟩⟩ := State.cameraPoll_cases happ
      · exact hP
      · by_cases hv : v.isTrue = s.camera.lastState
        · refine hP.frame rfl ?_ ?_ (fun _ => rfl) fun _ => rfl
          · simp [hv, hcall]
          · exact hv.trans hI.polled
        · intro hs'
          have hc := hs'.1
          simp [hv] at hc
  | cameraCall =>
      obtain ⟨b, hb, rfl⟩ := State.cameraCall_cases happ
      have hpolled := hI.call b hb
      intro _
      cases b with
      | true => exact ⟨fun _ => .inl hpolled.symm, fun _ => rfl⟩
      | false =>
          refine ⟨fun h => (nomatch h), fun hneed => ?_⟩
          rcases hneed with hp | ⟨u, hu⟩
          · exact absurd (hpolled.trans hp) (by decide)
          · exact absurd ((hg hb u).symm.trans hu) (by decide)
  | _ =>
      obtain ⟨htask, -, hcam⟩ := State.apply_other happ fun _ _ h => nomatch h
      obtain ⟨hcam, hflag⟩ := hcam (fun _ h => nomatch h) fun h => nomatch h
      exact hP.frame hflag (by rw [hcam]) (by rw [hcam])
        (htask WfPc.streaming rfl) (htask WfPc.inCall rfl)

/-- An unguarded step loses the property at once. -/
theorem not_streamsAsNeeded {a : Action} (hI : PollTracked s)
    (hg : ¬ StopsUnneeded s a) (happ : s.apply cfg a = some s') :
    ¬ StreamsAsNeeded s' := by
  intro hP
  cases a with
  | cameraCall =>
      simp only [StopsUnneeded, Classical.not_imp, not_forall,
        Bool.not_eq_false] at hg
      obtain ⟨hfalse, t, ht⟩ := hg
      obtain ⟨b, hb, rfl⟩ := State.cameraCall_cases happ
      cases hb.symm.trans hfalse
      -- the workflow that needs the stream is the only one, outside a call
      refine absurd ((hP ⟨rfl, fun u => ?_⟩).mpr (.inr ⟨t, ht⟩))
        fun h => nomatch h
      by_cases hu : u = t
      · rw [hu]
        show (s.task t).inWf WfPc.inCall = false
        cases hw : s.task t with
        | feeding w =>
            rw [hw] at ht
            obtain ⟨trig, sittingConfirmed, foodLow, pc⟩ := w
            cases pc <;> first | rfl | cases ht
        | _ => rfl
      · exact hI.mutex.inWf_other (TaskPc.isFeeding_of_inWf ht) hu _
  | feed t o =>
      simp only [StopsUnneeded, Classical.not_imp, Bool.not_eq_false] at hg
      obtain ⟨hstopping, hcall, hpolled⟩ := hg
      obtain ⟨hother, -, hcamera⟩ := State.feed_other happ
      obtain ⟨w, hw, hflag, -, hin⟩ := feed_streaming happ
      have hstop : w.pc = .stopping := by
        rw [hw] at hstopping
        obtain ⟨trig, sittingConfirmed, foodLow, pc⟩ := w
        cases pc <;> first | rfl | cases hstopping
      have hneed : s'.streamNeeded := .inl (by rw [hcamera, hpolled])
      refine absurd ((hP ⟨by rw [hcamera, hcall], fun u => ?_⟩).mpr hneed) ?_
      · by_cases hu : u = t
        · rw [hu, hin, hstop]
          rfl
        · rw [hother u hu]
          exact hI.mutex.inWf_other (TaskPc.isFeeding_of_inWf hstopping) hu _
      · rw [hflag, hstop]
        exact fun h => nomatch h
  | _ => exact hg trivial

-- ============================================================ every run

/-- In every run, the camera streams as needed in every state visited if
and only if every stop call that ends finds the other side without
need. -/
theorem streams_as_needed_iff (cfg : Config) {acts : List Action}
    (hrun : (feeder cfg).run State.init acts = some s) :
    (feeder cfg).Throughout StreamsAsNeeded State.init acts
      ↔ (feeder cfg).Obeys StopsUnneeded State.init acts := by
  refine Machine.throughout_iff_obeys (M := feeder cfg) pollTracked_init ?_
    (fun _ _ _ hI hP hg happ => ⟨hI.step happ, hP.step hI hg happ⟩)
    (fun _ _ _ hI _ hg happ => not_streamsAsNeeded hI hg happ) hrun
  intro _
  refine ⟨fun h => (nomatch h), fun hneed => ?_⟩
  rcases hneed with h | ⟨t, h⟩ <;> cases h

/-- The app turns the camera on, and a feed runs its sitting section. -/
def liveDuringFeed : List Action :=
  [.cameraPoll (some (.bool true)), .cameraCall, .fire 60, .attempt .schedule]
    ++ List.replicate 7 (.feed .schedule ⟨true, true, 5⟩)

/-- The exact condition on that run. -/
theorem streams_as_needed_live :
    ∃ s, (feeder .default).run State.init liveDuringFeed = some s
      ∧ ((feeder .default).Throughout StreamsAsNeeded State.init liveDuringFeed
        ↔ (feeder .default).Obeys StopsUnneeded State.init liveDuringFeed) :=
  ⟨_, rfl, streams_as_needed_iff .default rfl⟩

/-- The feed's stop call turns the app's stream off: nobody is in a call,
the last value polled is true, and the flag is false. -/
theorem feed_stops_live_stream :
    ((feeder .default).run State.init liveDuringFeed).map
        (fun s => (s.camera.call, s.camera.polled,
          (s.task .schedule).inWf WfPc.inCall,
          (s.task .command).inWf WfPc.inCall, s.world.cameraStreaming))
      = some (none, true, false, false, false) := by
  decide +kernel

end SitNChow
