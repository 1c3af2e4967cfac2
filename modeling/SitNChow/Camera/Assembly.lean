/-
What is in a raw frame: the bytes that the sensor sent from the last start
of the DMA for it on, all of them and in their order
(`raw_frame_received`).

# Which runs

The source relies on its timing in two places, and `Capture.Timely` says
where. A half-buffer must be copied before the DMA comes to it again:
with `dma_half_buffer_cnt - 1` events in the queue and one in `cam_task`'s
hands, the DMA is already writing to the half-buffer that is copied. And
when a frame is started, no event of the frame before may be waiting; it
would be taken for the first half-buffer of the new one.
-/
import SitNChow.Camera.Filling

namespace SitNChow.Camera

open Kit

-- ================================================================ runs

/-- The bytes that the sensor sends in a run. -/
def bytes (acts : List CaptureAction) : List UInt8 :=
  acts.filterMap fun
    | .byte b => some b
    | _ => none

/-- `cam_task` has just started the DMA for a frame. -/
structure Capture.Started (f : Nat) (s : Capture) : Prop where
  running : s.running = true
  written : s.written = 0
  reading : s.drv.pc = .receive ∧ s.drv.state = .readBuf
  current : s.drv.framePos = f
  empty : s.drv.fb f = []

variable (c : CaptureConfig) (memory : Nat → UInt8)

/-- In these steps from `s₀` on the DMA is not started for this frame. -/
def NotRestarted (s₀ : Capture) (acts : List CaptureAction) (f : Nat) : Prop :=
  ∀ pre post s₁ s₂, acts = pre ++ .task :: post →
    (capture c memory).run s₀ pre = some s₁ → Capture.apply c .task s₁ = some s₂ →
    s₁.drv.starts c.toConfig = true → s₂.drv.framePos ≠ f

/-- `buf` is what the sensor sent in the run from the last start of the
DMA for this frame on, up to the size of a frame. -/
def Received (acts : List CaptureAction) (f : Nat) (buf : List UInt8) : Prop :=
  ∃ before seg after s₀, acts = before ++ (seg ++ after)
    ∧ (capture c memory).run (capture c memory).init before = some s₀
    ∧ s₀.Started f ∧ NotRestarted c memory s₀ (seg ++ after) f
    ∧ buf = (bytes seg).take c.fbSize ∧ c.fbSize ≤ (bytes seg).length

/-- The run so far fills this frame: the DMA was started for it, not
again since, and `cam_task` has what came. -/
def Fills (acts : List CaptureAction) (s : Capture) : Prop :=
  ∃ before seg s₀, acts = before ++ seg
    ∧ (capture c memory).run (capture c memory).init before = some s₀
    ∧ s₀.Started s.drv.framePos ∧ NotRestarted c memory s₀ seg s.drv.framePos
    ∧ Fed c s (bytes seg)

/-- What a run has made of the bytes in it. -/
structure History (acts : List CaptureAction) (s : Capture) : Prop where
  run : (capture c memory).run (capture c memory).init acts = some s
  filling : s.drv.pc = .receive → s.drv.state = .readBuf → Fills c memory acts s
  out : ∀ f ∈ s.drv.out, Received c memory acts f (s.drv.fb f)

variable {c memory} {acts : List CaptureAction} {s s' : Capture} {f : Nat}

/-- Before its first step a run has made nothing. -/
theorem history_init :
    History c memory [] (capture c memory).init where
  run := rfl
  filling _ hstate := by cases hstate
  out _ hf := absurd hf List.not_mem_nil

/-- The bytes of two parts of a run are in a row. -/
theorem bytes_append (acts acts' : List CaptureAction) :
    bytes (acts ++ acts') = bytes acts ++ bytes acts' :=
  List.filterMap_append

/-- A step that is no byte adds none. -/
theorem bytes_snoc {a : CaptureAction} (ha : bytes [a] = [])
    (acts : List CaptureAction) : bytes (acts ++ [a]) = bytes acts := by
  rw [bytes_append, ha, List.append_nil]

/-- Nothing is started in no steps. -/
theorem notRestarted_nil (s₀ : Capture) (f : Nat) :
    NotRestarted c memory s₀ [] f := by
  intro pre post s₁ s₂ hacts
  exact absurd hacts.symm (List.append_ne_nil_of_right_ne_nil _ (List.cons_ne_nil _ _))

/-- A step that is no start for the frame adds none. -/
theorem NotRestarted.snoc {s₀ : Capture} {a : CaptureAction}
    (h : NotRestarted c memory s₀ acts f)
    (hrun : (capture c memory).run s₀ acts = some s)
    (ha : a = .task → Capture.apply c .task s = some s' →
      s.drv.starts c.toConfig = true → s'.drv.framePos ≠ f)
    (happ : Capture.apply c a s = some s') :
    NotRestarted c memory s₀ (acts ++ [a]) f := by
  intro pre post s₁ s₂ hacts hpre htask hstarts
  rcases List.eq_nil_or_concat post with rfl | ⟨post, b, rfl⟩
  · -- It is the step itself.
    obtain ⟨rfl, hlast⟩ := List.append_inj' hacts rfl
    obtain rfl := List.head_eq_of_cons_eq hlast
    obtain rfl := Option.some.inj (hrun.symm.trans hpre)
    obtain rfl := Option.some.inj (happ.symm.trans htask)
    exact ha rfl happ hstarts
  · rw [List.concat_eq_append, ← List.cons_append, ← List.append_assoc] at hacts
    obtain ⟨rfl, -⟩ := List.append_inj' hacts rfl
    exact h pre post s₁ s₂ rfl hpre htask hstarts

/-- The frame that the DMA is started for is the driver's. -/
theorem State.starts_en {c : Config} {d d' : State} (hstarts : d.starts c = true)
    (happ : d.task c = some d') : d'.en d'.framePos = true := by
  rw [State.task] at happ
  cases hd : d.pc with
  | next state =>
      rw [State.starts, hd] at hstarts
      rw [hd] at happ
      dsimp only at happ
      rw [if_pos hstarts] at happ
      obtain rfl := Option.some.inj happ
      exact hstarts
  | scan state x =>
      rw [State.starts, hd] at hstarts
      obtain ⟨hx, hen⟩ := Bool.and_eq_true_iff.mp hstarts
      rw [hd] at happ
      dsimp only at happ
      rw [if_pos (of_decide_eq_true hx), if_pos hen] at happ
      obtain rfl := Option.some.inj happ
      exact hen
  | receive | send | pop | resend fb2 | give fb2 =>
      rw [State.starts, hd] at hstarts
      cases hstarts

/-- So a frame that is out after a step was not started by it. -/
theorem Capture.out_not_started (hs' : Inv c.toConfig s'.drv)
    (hf : f ∈ s'.drv.out) (happ : Capture.apply c .task s = some s')
    (hstarts : s.drv.starts c.toConfig = true) : s'.drv.framePos ≠ f := by
  rintro rfl
  obtain ⟨d, hd, rfl⟩ := Option.map_eq_some_iff.mp happ
  rw [if_pos hstarts] at hs' hf
  exact (hs'.ledger.free_iff _ hs'.pos).mp (State.starts_en hstarts hd) hf

/-- A frame that stays out stays as it was received. -/
theorem Received.snoc {a : CaptureAction} {buf : List UInt8}
    (h : Received c memory acts f buf)
    (hrun : (capture c memory).run (capture c memory).init acts = some s)
    (hs' : Inv c.toConfig s'.drv) (happ : Capture.apply c a s = some s')
    (hf : f ∈ s'.drv.out) : Received c memory (acts ++ [a]) f buf := by
  obtain ⟨before, seg, after, s₀, rfl, hbefore, hstart, hnot, hbuf⟩ := h
  obtain ⟨s₁, hrun₁, hrest⟩ := Machine.run_append.mp hrun
  obtain rfl := Option.some.inj (hbefore.symm.trans hrun₁)
  refine ⟨before, seg, after ++ [a], s₀, by simp only [List.append_assoc],
    hbefore, hstart, ?_, hbuf⟩
  rw [← List.append_assoc]
  exact hnot.snoc hrest (fun _ => Capture.out_not_started hs' hf) happ

/-- The driver's invariant holds in a run's state. -/
theorem History.inv (h : History c memory acts s) :
    Inv c.toConfig s.drv :=
  inv_reachable (Capture.reachable_drv (Machine.reachable_of_run h.run))

/-- The frame that a step of `cam_task` starts to fill. -/
theorem State.task_starts {c : Config} {d d' : State} (h : Inv c d)
    (happ : d.task c = some d') (hpc : d'.pc = .receive)
    (hstate : d'.state = .readBuf) :
    d.starts c = true ∧ d'.cnt = 0 ∧ d'.fb d'.framePos = [] := by
  have hphase := h.phase
  rw [State.Phase] at hphase
  rw [State.task] at happ
  cases hd : d.pc with
  | receive => rw [hd] at happ; cases happ
  | send | pop | resend fb2 =>
      rw [hd] at happ
      dsimp only at happ
      split at happ <;> cases happ <;> cases hpc
  | give fb2 => rw [hd] at happ; cases happ; cases hpc
  | next state =>
      rw [hd] at happ
      dsimp only at happ
      split at happ
      next hen =>
        cases happ
        exact ⟨by rw [State.starts, hd]; exact hen, rfl,
          Function.update_self _ _ _⟩
      next => cases happ; cases hpc
  | scan state x =>
      rw [hd] at happ hphase
      dsimp only at happ
      split at happ
      next hx =>
        split at happ
        next hen =>
          cases happ
          refine ⟨?_, rfl, Function.update_self _ _ _⟩
          rw [State.starts, hd]
          exact Bool.and_eq_true_iff.mpr ⟨decide_eq_true hx, hen⟩
        next => cases happ; cases hpc
      next =>
        cases happ
        cases state with
        | idle => rw [State.notStarted, hphase] at hstate; cases hstate
        | readBuf => cases hstate

/-- The application does not touch a raw frame that is being filled. -/
theorem State.app_raw {c : Config} {d d' : State} {a : Action}
    (hraw : c.jpegMode = false)
    (ha : a = .take ∨ (∃ f, a = .check f) ∨ ∃ f, a = .give f)
    (happ : State.apply c a d = some d') :
    d'.pc = d.pc ∧ d'.state = d.state ∧ d'.framePos = d.framePos
      ∧ d'.cnt = d.cnt ∧ d'.fb = d.fb := by
  rcases ha with rfl | ⟨f, rfl⟩ | ⟨f, rfl⟩
  · rw [State.apply] at happ
    split at happ
    next => cases happ
    next => cases happ; exact ⟨rfl, rfl, rfl, rfl, rfl⟩
  · rw [State.apply] at happ
    split at happ
    next =>
      cases happ
      rw [State.check, if_neg (by rw [hraw]; exact Bool.false_ne_true)]
      exact ⟨rfl, rfl, rfl, rfl, rfl⟩
    next => cases happ
  · rw [State.apply] at happ
    split at happ
    next => cases happ; exact ⟨rfl, rfl, rfl, rfl, rfl⟩
    next => cases happ

/-- While a frame is still read, sending an event was no overflow. -/
theorem Capture.sendEvent_drv {e : CamEvent}
    (hstate : (s.sendEvent c e).drv.state = .readBuf) :
    (s.sendEvent c e).drv = s.drv := by
  rw [Capture.sendEvent_room hstate]

/-- While a frame is still read, neither was a byte of the sensor. -/
theorem Capture.byte_drv {b : UInt8}
    (hstate : (s.byte c b).drv.state = .readBuf) :
    (s.byte c b).drv = s.drv := by
  rw [Capture.byte] at hstate ⊢
  split
  next hrunning =>
    rw [if_pos hrunning] at hstate
    dsimp only at hstate ⊢
    split
    next hend =>
      rw [if_pos hend] at hstate
      exact Capture.sendEvent_drv hstate
    next => rfl
  next => rfl

/-- The frame that is being filled goes on. -/
theorem History.goes_on {a : CaptureAction} (h : History c memory acts s)
    (ha : a ≠ .task) (happ : Capture.apply c a s = some s')
    (hpc : s.drv.pc = .receive) (hstate : s.drv.state = .readBuf)
    (hpos : s'.drv.framePos = s.drv.framePos)
    (hfed : ∀ seg, Fed c s (bytes seg) → Fed c s' (bytes (seg ++ [a]))) :
    Fills c memory (acts ++ [a]) s' := by
  obtain ⟨before, seg, s₀, rfl, hrun, hstart, hnot, hseg⟩ := h.filling hpc hstate
  obtain ⟨s₁, hrun₁, hrest⟩ := Machine.run_append.mp h.run
  obtain rfl := Option.some.inj (hrun.symm.trans hrun₁)
  rw [← hpos] at hstart hnot
  exact ⟨before, seg ++ [a], s₀, List.append_assoc _ _ _, hrun, hstart,
    hnot.snoc hrest (fun htask => absurd htask ha) happ, hfed seg hseg⟩

/-- A step of the application goes on with the frame that is filled. -/
theorem History.goes_on_app {a : CaptureAction} {d : Action}
    (h : History c memory acts s) (hraw : c.jpegMode = false)
    (hd : d = .take ∨ (∃ f, d = .check f) ∨ ∃ f, d = .give f)
    (ha : a ≠ .task) (hbytes : bytes [a] = [])
    (hstep : Capture.apply c a s = some s') (happ : s.app c d = some s')
    (hpc : s'.drv.pc = .receive) (hstate : s'.drv.state = .readBuf) :
    Fills c memory (acts ++ [a]) s' := by
  obtain ⟨d', hd', rfl⟩ := Option.map_eq_some_iff.mp happ
  obtain ⟨hpc', hstate', hpos, hcnt, hfb⟩ := State.app_raw hraw hd hd'
  dsimp only at hpc hstate
  rw [hpc'] at hpc
  rw [hstate'] at hstate
  refine h.goes_on ha hstep hpc hstate hpos fun seg hseg => ?_
  rw [bytes_snoc hbytes]
  refine hseg.congr ?_ hcnt rfl rfl rfl rfl
  dsimp only
  rw [hfb, hpos]

/-- `cam_task` does what an event asks for. -/
theorem History.handles (h : History c memory acts s)
    (hraw : c.jpegMode = false) (htimely : s.Timely c .handle)
    (happ : Capture.apply c .handle s = some s') (hpc : s'.drv.pc = .receive)
    (hstate : s'.drv.state = .readBuf) :
    Fills c memory (acts ++ [.handle]) s' := by
  have hstep := happ
  rw [Capture.apply] at happ
  split at happ
  next hpc₀ =>
    rw [Capture.handle] at happ
    cases hevent : s.camEvent with
    | none => rw [hevent] at happ; cases happ
    | some e =>
        rw [hevent] at happ
        cases e with
        | inSucEof =>
            obtain rfl := Option.some.inj happ
            have hstate₀ : s.drv.state = .readBuf := by
              cases hs : s.drv.state with
              | idle =>
                  dsimp only at hstate
                  rw [State.onEof, hs] at hstate
                  exact absurd (hs.symm.trans hstate) (by decide)
              | readBuf => rfl
            have hpos : (s.drv.onEof c.toConfig (s.half c)).framePos
                = s.drv.framePos := by
              rw [State.onEof_raw _ hraw hstate₀]
              split <;> rfl
            refine h.goes_on CaptureAction.noConfusion hstep hpc₀ hstate₀ hpos
              fun seg hseg => ?_
            rw [bytes_snoc rfl]
            exact hseg.eof hraw hstate₀ hevent (htimely hevent hstate₀)
        | vsync =>
            -- The frame is at its end, and none is being filled then.
            obtain rfl := Option.some.inj happ
            dsimp only at hpc
            cases hs : s.drv.state with
            | idle => rw [State.onVsync, hs] at hpc; cases hpc
            | readBuf =>
                rw [State.onVsync_raw _ hraw hs] at hpc
                split at hpc <;> cases hpc
  next => cases happ

/-- `cam_task` starts the DMA for a frame, of which nothing has come yet. -/
theorem History.starts (h : History c memory acts s)
    (htimely : s.Timely c .task)
    (happ : Capture.apply c .task s = some s') (hpc : s'.drv.pc = .receive)
    (hstate : s'.drv.state = .readBuf) :
    Fills c memory (acts ++ [.task]) s' := by
  obtain ⟨d, hd, rfl⟩ := Option.map_eq_some_iff.mp happ
  have hdrv : (if s.drv.starts c.toConfig = true then
      { s with drv := d, running := true, written := 0 }
      else { s with drv := d } : Capture).drv = d := by split <;> rfl
  rw [hdrv] at hpc hstate
  obtain ⟨hstarts, hcnt, hfb⟩ := State.task_starts h.inv hd hpc hstate
  rw [if_pos hstarts] at happ ⊢
  have hrun : (capture c memory).run (capture c memory).init
      (acts ++ [.task]) = some
        { s with drv := d, running := true, written := 0 } := by
    refine Machine.run_append.mpr ⟨s, h.run, ?_⟩
    have hstep : (capture c memory).apply .task s = some
        { s with drv := d, running := true, written := 0 } := by
      show s.task c = _
      rw [Capture.task, hd, Option.map_some, if_pos hstarts]
    exact Machine.run_cons hstep
  refine ⟨acts ++ [.task], [], _, (List.append_nil _).symm, hrun,
    ⟨rfl, rfl, ⟨hpc, hstate⟩, rfl, hfb⟩, notRestarted_nil _ _, ?_⟩
  refine ⟨?_, Nat.le_of_eq (by rw [hcnt, Nat.zero_mul]; rfl),
    .inl ⟨rfl, rfl, Ring.holds_nil, ?_⟩⟩
  · dsimp only
    rw [hfb, hcnt, Nat.zero_mul]
    rfl
  · have hpending : s.pending = 0 := htimely hstarts
    show d.cnt + s.pending = _
    rw [hcnt, hpending]
    exact (Nat.zero_div _).symm

/-- Each step keeps what is known of the frame that is being filled. -/
theorem History.filling_step {a : CaptureAction} (h : History c memory acts s)
    (hraw : c.jpegMode = false) (htimely : s.Timely c a)
    (happ : Capture.apply c a s = some s') (hpc : s'.drv.pc = .receive)
    (hstate : s'.drv.state = .readBuf) :
    Fills c memory (acts ++ [a]) s' := by
  cases a with
  | byte b =>
      have hstep := happ
      obtain rfl := Option.some.inj happ
      have hdrv := Capture.byte_drv hstate
      refine h.goes_on CaptureAction.noConfusion hstep (hdrv ▸ hpc)
        (hdrv ▸ hstate) (by rw [hdrv]) fun seg hseg => ?_
      rw [bytes_append]
      exact hseg.byte b hstate
  | vsync =>
      have hstep := happ
      obtain rfl := Option.some.inj happ
      have hdrv := Capture.sendEvent_drv hstate
      refine h.goes_on CaptureAction.noConfusion hstep (hdrv ▸ hpc)
        (hdrv ▸ hstate) (by rw [hdrv]) fun seg hseg => ?_
      rw [bytes_snoc rfl]
      exact hseg.vsync hstate
  | receive =>
      have hstep := happ
      rw [Capture.apply] at happ
      split at happ
      next e rest hevent hqueue =>
        split at happ
        next =>
          obtain rfl := Option.some.inj happ
          refine h.goes_on CaptureAction.noConfusion hstep hpc hstate rfl
            fun seg hseg => ?_
          rw [bytes_snoc rfl]
          exact hseg.receive hevent hqueue
        next => cases happ
      next => cases happ
  | handle => exact h.handles hraw htimely happ hpc hstate
  | task => exact h.starts htimely happ hpc hstate
  | take =>
      exact h.goes_on_app hraw (.inl rfl) CaptureAction.noConfusion rfl happ happ
        hpc hstate
  | check f =>
      exact h.goes_on_app hraw (.inr (.inl ⟨f, rfl⟩)) CaptureAction.noConfusion rfl
        happ happ hpc hstate
  | give f =>
      exact h.goes_on_app hraw (.inr (.inr ⟨f, rfl⟩)) CaptureAction.noConfusion rfl
        happ happ hpc hstate

/-- A frame that has come to its end is what was received. -/
theorem History.ended (h : History c memory acts s)
    (hpc : s.drv.pc = .receive) (hstate : s.drv.state = .readBuf)
    (hfull : (s.drv.fb s.drv.framePos).length = c.fbSize) :
    Received c memory acts s.drv.framePos (s.drv.fb s.drv.framePos) := by
  obtain ⟨before, seg, s₀, rfl, hrun, hstart, hnot, hseg⟩ := h.filling hpc hstate
  have hlen := hseg.length
  rw [hfull] at hlen
  refine ⟨before, seg, [], s₀, by rw [List.append_nil], hrun, hstart,
    by rwa [List.append_nil], ?_, ?_⟩
  · rw [hseg.frame, hlen]
  · rw [hlen]
    exact hseg.received

/-- Each step keeps what is known of the frames that are out. -/
theorem History.out_step {a : CaptureAction} (h : History c memory acts s)
    (hraw : c.jpegMode = false) (happ : Capture.apply c a s = some s')
    (hf : f ∈ s'.drv.out) : Received c memory (acts ++ [a]) f (s'.drv.fb f) := by
  have hnext : (capture c memory).run (capture c memory).init (acts ++ [a])
      = some s' := Machine.run_append.mpr ⟨s, h.run, Machine.run_cons happ⟩
  have hs' : Inv c.toConfig s'.drv :=
    inv_reachable (Capture.reachable_drv (Machine.reachable_of_run hnext))
  have hrun := Capture.apply_erase happ
  cases herase : s.erase c a with
  | nil =>
      rw [herase] at hrun
      obtain hdrv := Option.some.inj hrun
      have hf₀ : f ∈ s.drv.out := hdrv ▸ hf
      rw [← hdrv]
      exact (h.out f hf₀).snoc h.run hs' happ hf
  | cons d rest =>
      rw [herase] at hrun
      obtain ⟨d₁, hd, hrest⟩ := Machine.run_cons_inv hrun
      have hnil : rest = [] := by
        have hlen : (s.erase c a).length ≤ 1 := Capture.length_erase s a
        rw [herase, List.length_cons] at hlen
        exact List.eq_nil_of_length_eq_zero (by omega)
      subst hnil
      obtain rfl := Option.some.inj hrest
      rcases h.inv.out_step hraw hd hf with ⟨hout, hfb⟩ | hfull
      · rw [hfb]
        exact (h.out f hout).snoc h.run hs' happ hf
      · obtain ⟨⟨half, rfl⟩, hpc, hstate, rfl, hfull⟩ := hfull
        have hfb : s'.drv.fb s.drv.framePos = s.drv.fb s.drv.framePos := by
          have hok : s'.drv = s.drv.onVsync c.toConfig half := by
            have hd : State.apply c.toConfig (.vsync half) s.drv
                = some s'.drv := hd
            rw [State.apply] at hd
            split at hd
            next => exact (Option.some.inj hd).symm
            next => cases hd
          rw [hok, State.onVsync_raw half hraw hstate]
          split <;> rfl
        rw [hfb]
        exact (h.ended hpc hstate hfull).snoc h.run hs' happ hf

/-- A step keeps the history. -/
theorem History.step {a : CaptureAction} (h : History c memory acts s)
    (hraw : c.jpegMode = false) (htimely : s.Timely c a)
    (happ : (capture c memory).apply a s = some s') :
    History c memory (acts ++ [a]) s' where
  run := Machine.run_append.mpr ⟨s, h.run, Machine.run_cons happ⟩
  filling := h.filling_step hraw htimely happ
  out _ hf := h.out_step hraw happ hf

/-- And so does every run that keeps to the timing. -/
theorem History.runs {acts' : List CaptureAction}
    (h : History c memory acts s) (hraw : c.jpegMode = false)
    (hrun : (capture c memory).runBy (Capture.Timely c) s acts' = some s') :
    History c memory (acts ++ acts') s' := by
  induction acts' generalizing acts s with
  | nil =>
      obtain rfl := Option.some.inj hrun
      rw [List.append_nil]
      exact h
  | cons a acts' ih =>
      obtain ⟨htimely, s₁, happ, hrun₁⟩ := Machine.runBy_cons_inv hrun
      have hnext := ih (h.step hraw htimely happ) hrun₁
      rw [List.append_assoc] at hnext
      exact hnext

/-- In a run that keeps to the timing, every raw frame that is queued or at
the application is what the sensor sent from the last start of the DMA for
it on: no byte is lost, doubled or out of its place. -/
theorem raw_frame_received (hraw : c.jpegMode = false)
    (hrun : (capture c memory).runBy (Capture.Timely c)
      (capture c memory).init acts = some s)
    (hf : f ∈ s.drv.out) : Received c memory acts f (s.drv.fb f) :=
  (history_init.runs hraw hrun).out f hf

/-- Two half-buffers of two bytes, and two frames. -/
def twoHalves : CaptureConfig where
  toConfig := twoFrames
  dmaHalfBufferCnt := 2
  half_pos := Nat.two_pos
  cnt_ge := Nat.le_refl 2
  whole _ := ⟨2, rfl⟩

/-- The DMA is started for the first frame. -/
def startFirst : List CaptureAction := [.vsync, .receive, .handle, .task]

/-- The sensor sends four bytes, and `cam_task` queues the frame. -/
def sendFrame (b₁ b₂ b₃ b₄ : UInt8) : List CaptureAction :=
  [.byte b₁, .byte b₂, .receive, .byte b₃, .handle, .byte b₄, .receive,
    .handle, .vsync, .receive, .handle, .task]

/-- The first frame comes to the application, then the other one, and
then the first one again. -/
def sendAgain : List CaptureAction :=
  startFirst ++ sendFrame 1 2 3 4 ++ [.take, .check 0, .task, .task, .task]
    ++ sendFrame 5 6 7 8 ++ [.take, .check 1, .give 0, .task, .task]
    ++ sendFrame 9 10 11 12 ++ [.take, .check 0]

/-- The application has both frames. -/
def sentAgain : Capture :=
  ((capture twoHalves fun _ => 0).runBy (Capture.Timely twoHalves)
    (capture twoHalves fun _ => 0).init sendAgain).get rfl

/-- The first buffer is filled a second time: it has the bytes of the second
fill. -/
theorem raw_frame_received_again :
    Received twoHalves (fun _ => 0) sendAgain 0 (sentAgain.drv.fb 0)
      ∧ sentAgain.drv.fb 0 = [9, 10, 11, 12] := by
  have hrun : (capture twoHalves fun _ => 0).runBy (Capture.Timely twoHalves)
      (capture twoHalves fun _ => 0).init sendAgain = some sentAgain :=
    (Option.some_get _).symm
  exact ⟨raw_frame_received rfl hrun (show 0 ∈ [0, 1] by decide), rfl⟩

/-- With a full queue the DMA is a half-buffer ahead too far: the fifth
byte comes to the first one before `cam_task` has copied it, and the
frame is queued with it in place of the first byte. -/
example : ((capture twoHalves fun _ => 0).run (capture twoHalves fun _ => 0).init
    (startFirst ++ [.byte 1, .byte 2, .receive, .byte 3, .byte 4, .byte 5,
      .handle, .receive, .handle, .vsync, .receive, .handle, .task])).map
    (fun s : Capture => (s.drv.queue, s.drv.fb 0)) = some ([0], [5, 2, 3, 4]) :=
  rfl

/-- When `cam_task` comes to the end of a frame, and no event of the next
one is behind it, it hands the frame out exactly if the sensor has sent
all of it since the last start of the DMA for it. -/
theorem raw_frame_queued_iff (hraw : c.jpegMode = false)
    (hrun : (capture c memory).runBy (Capture.Timely c)
      (capture c memory).init acts = some s)
    (hpc : s.drv.pc = .receive) (hstate : s.drv.state = .readBuf)
    (hevent : s.camEvent = some .vsync)
    (hqueue : CamEvent.inSucEof ∉ s.eventQueue)
    (happ : (capture c memory).apply .handle s = some s') :
    ∃ before seg s₀, acts = before ++ seg
      ∧ (capture c memory).run (capture c memory).init before = some s₀
      ∧ s₀.Started s.drv.framePos ∧ NotRestarted c memory s₀ seg s.drv.framePos
      ∧ (s.drv.framePos ∈ s'.drv.out ↔ c.fbSize ≤ (bytes seg).length) := by
  have h := history_init.runs hraw hrun
  rw [List.nil_append] at h
  obtain ⟨before, seg, s₀, hacts, hrun₀, hstart, hnot, hseg⟩ :=
    h.filling hpc hstate
  refine ⟨before, seg, s₀, hacts, hrun₀, hstart, hnot, ?_⟩
  have hdrv : s'.drv = s.drv.onVsync c.toConfig (s.half c) := by
    have happ : Capture.apply c .handle s = some s' := happ
    rw [Capture.apply, if_pos hpc, Capture.handle, hevent] at happ
    obtain rfl := Option.some.inj happ
    rfl
  have hnot := h.inv.reading_not_out hpc hstate
  rw [State.out, hpc] at hnot
  have hhanded : s.drv.framePos ∈ s'.drv.out
      ↔ (s.drv.fb s.drv.framePos).length = c.fbSize := by
    rw [hdrv, State.onVsync_raw _ hraw hstate]
    split
    next hfull => exact ⟨fun _ => hfull, fun _ => List.mem_cons_self⟩
    next hfull => exact ⟨fun hm => absurd hm hnot, fun hf => absurd hf hfull⟩
  rw [hhanded, hseg.length]
  have hbound := h.inv.bounded s.drv.framePos
  rw [hseg.length] at hbound
  refine ⟨fun hfull => hfull ▸ hseg.received, fun hall => ?_⟩
  obtain ⟨k, hk⟩ := c.whole hraw
  have hk : c.fbSize = k * c.dmaHalfBufferSize := hk.trans (Nat.mul_comm _ _)
  rw [hk] at hbound hall ⊢
  have hle : s.drv.cnt ≤ k := Nat.le_of_mul_le_mul_right hbound c.half_pos
  have hge : k ≤ s.drv.cnt := by
    rcases hseg.dma with hlive | ⟨-, hfull⟩
    · have hpending : s.pending = 0 := by
        rw [Capture.pending, hevent]
        exact List.count_eq_zero.mpr fun hm =>
          hqueue ((List.mem_cons.mp hm).resolve_left (by decide))
      have hcount := hlive.count
      rw [hpending, Nat.add_zero] at hcount
      rw [hcount]
      exact (Nat.le_div_iff_mul_le c.half_pos).mpr hall
    · rw [hk] at hfull
      exact Nat.le_of_lt_succ (Nat.lt_of_mul_lt_mul_right hfull)
  rw [Nat.le_antisymm hle hge]

/-- The first frame is filled for a second time, and `cam_task` has come
to its end after two bytes. -/
def atEnd : List CaptureAction :=
  startFirst ++ sendFrame 1 2 3 4 ++ [.take, .check 0, .task, .task, .task]
    ++ sendFrame 5 6 7 8 ++ [.take, .check 1, .give 0, .task, .task,
      .byte 9, .byte 10, .receive, .handle, .vsync, .receive]

def ending : Capture :=
  ((capture twoHalves fun _ => 0).runBy (Capture.Timely twoHalves)
    (capture twoHalves fun _ => 0).init atEnd).get rfl

def ended : Capture :=
  ((capture twoHalves fun _ => 0).apply .handle ending).get rfl

/-- The end of the second fill of the first buffer. -/
theorem raw_frame_queued_iff_again :
    ∃ before seg s₀, atEnd = before ++ seg
      ∧ (capture twoHalves fun _ => 0).run (capture twoHalves fun _ => 0).init
        before = some s₀
      ∧ s₀.Started ending.drv.framePos
      ∧ NotRestarted twoHalves (fun _ => 0) s₀ seg ending.drv.framePos
      ∧ (ending.drv.framePos ∈ ended.drv.out
        ↔ twoHalves.fbSize ≤ (bytes seg).length) := by
  have hrun : (capture twoHalves fun _ => 0).runBy (Capture.Timely twoHalves)
      (capture twoHalves fun _ => 0).init atEnd = some ending :=
    (Option.some_get _).symm
  have happ : (capture twoHalves fun _ => 0).apply .handle ending
      = some ended := (Option.some_get _).symm
  exact raw_frame_queued_iff rfl hrun rfl rfl rfl List.not_mem_nil happ

end SitNChow.Camera
