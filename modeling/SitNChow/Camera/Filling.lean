/-
A raw frame while it is filled, and what becomes of it then.

The first `cnt` half-buffers of the frame are there, the events that are
waiting stand for those behind them, and `dma_buffer` still has these
(`Fed`). A byte from the sensor, an event and a copy by `cam_task` keep
this, if they keep to the timing of `Capture.Timely`. A frame that is out
does not change any more (`Inv.out_step`).
-/
import SitNChow.Camera.Capture

namespace SitNChow.Camera

open Kit Kit.Pool

-- ===================================================== frames that are out

section

variable {c : Config} {s s' : State} {f : Nat}

/-- At its end a raw frame is handed out if it has its full size. -/
theorem State.onVsync_raw (half : List UInt8) (hraw : c.jpegMode = false)
    (hstate : s.state = .readBuf) :
    s.onVsync c half =
      if (s.fb s.framePos).length = c.fbSize then
        { s with en := Function.update s.en s.framePos false, pc := .send }
      else { s with pc := .next .readBuf } := by
  simp only [State.onVsync, hstate, hraw, Bool.false_eq_true, or_true,
    if_true, false_and, if_false, false_or, Function.update_eq_self]

/-- A half-buffer of a raw frame is appended if there is room. -/
theorem State.onEof_raw (half : List UInt8) (hraw : c.jpegMode = false)
    (hstate : s.state = .readBuf) :
    s.onEof c half =
      if c.fbSize < (s.fb s.framePos).length + c.dmaHalfBufferSize then s
      else { s with
        fb := Function.update s.fb s.framePos (s.fb s.framePos ++ half)
        cnt := s.cnt + 1 } := by
  simp only [State.onEof, hstate, hraw, Bool.false_eq_true, false_and, if_false]

/-- `cam_task` takes no flag down between two events. -/
theorem State.task_en (hen : s.en f = true) (htask : s.task c = some s') :
    s'.en f = true := by
  have hup : ∀ g, Function.update s.en g true f = true :=
    fun g => update_true g f hen
  rw [State.task] at htask
  split at htask
  next => cases htask
  next => split at htask <;> cases htask <;> exact hen
  next =>
    split at htask
    next => cases htask; exact hup _
    next => cases htask; exact hen
  next =>
    split at htask
    next => cases htask; exact hen
    next => cases htask; exact hup _
  next => cases htask; exact hup _
  next => split at htask <;> cases htask <;> exact hen
  next =>
    split at htask
    next => split at htask <;> cases htask <;> exact hen
    next => cases htask; exact hen

/-- A driver's flag goes down only at the end of a frame that has its full
size. -/
theorem State.apply_en {a : Action} (hraw : c.jpegMode = false)
    (hen : s.en f = true) (happ : State.apply c a s = some s') :
    s'.en f = true
      ∨ (∃ half, a = .vsync half) ∧ s.pc = .receive ∧ s.state = .readBuf
        ∧ f = s.framePos ∧ (s.fb f).length = c.fbSize := by
  cases a with
  | eof half =>
      left
      rw [State.apply] at happ
      split at happ
      next =>
        obtain rfl := Option.some.inj happ
        rw [State.onEof]
        split
        next => exact hen
        next => split <;> [exact hen; (dsimp only; split <;> exact hen)]
      next => cases happ
  | vsync half =>
      rw [State.apply] at happ
      split at happ
      next hok =>
        obtain rfl := Option.some.inj happ
        cases hstate : s.state with
        | idle =>
            rw [State.onVsync, hstate]
            exact .inl hen
        | readBuf =>
            rw [State.onVsync_raw half hraw hstate]
            split
            next hfull =>
              by_cases hf : f = s.framePos
              · subst hf
                exact .inr ⟨⟨half, rfl⟩, hok.1, rfl, rfl, hfull⟩
              · exact .inl ((Function.update_of_ne hf _ _).trans hen)
            next => exact .inl hen
      next => cases happ
  | task => exact .inl (State.task_en hen happ)
  | overflow =>
      obtain rfl := Option.some.inj happ
      exact .inl hen
  | take =>
      rw [State.apply] at happ
      split at happ
      next => cases happ
      next => obtain rfl := Option.some.inj happ; exact .inl hen
  | check g =>
      rw [State.apply] at happ
      split at happ
      next =>
        obtain rfl := Option.some.inj happ
        rw [State.check, if_neg (by rw [hraw]; exact Bool.false_ne_true)]
        exact .inl hen
      next => cases happ
  | give g =>
      rw [State.apply] at happ
      split at happ
      next => obtain rfl := Option.some.inj happ; exact .inl (update_true g f hen)
      next => cases happ

/-- A step leaves a raw frame that is out alone. -/
theorem Inv.out_frame {a : Action} (h : Inv c s) (hraw : c.jpegMode = false)
    (hf : f ∈ s.out) (happ : State.apply c a s = some s') :
    s'.fb f = s.fb f := by
  have hread : s.pc = .receive → s.state = .readBuf → f ≠ s.framePos := by
    rintro hpc hstate rfl
    exact h.reading_not_out hpc hstate hf
  cases a with
  | eof half =>
      rw [State.apply] at happ
      split at happ
      next hok =>
        obtain rfl := Option.some.inj happ
        exact (State.onEof_frame half (hread hok.1)).2
      next => cases happ
  | vsync half =>
      rw [State.apply] at happ
      split at happ
      next hok =>
        obtain rfl := Option.some.inj happ
        exact (State.onVsync_frame half (hread hok.1)).2
      next => cases happ
  | task =>
      refine (State.task_frame happ ?_).2
      rintro x hen hx rfl
      have hlt : f < c.frameCnt := by
        rcases hx with hx | rfl
        · exact hx
        · exact h.pos
      exact (h.ledger.free_iff f hlt).mp hen hf
  | overflow => obtain rfl := Option.some.inj happ; rfl
  | take =>
      rw [State.apply] at happ
      split at happ
      next => cases happ
      next => obtain rfl := Option.some.inj happ; rfl
  | check g =>
      rw [State.apply] at happ
      split at happ
      next =>
        obtain rfl := Option.some.inj happ
        rw [State.check, if_neg (by rw [hraw]; exact Bool.false_ne_true)]
      next => cases happ
  | give g =>
      rw [State.apply] at happ
      split at happ
      next => obtain rfl := Option.some.inj happ; rfl
      next => cases happ

/-- A raw frame that is out was out before, and is as it was, or it is the
one that has just come to its end with its full size. -/
theorem Inv.out_step {a : Action} (h : Inv c s) (hraw : c.jpegMode = false)
    (happ : State.apply c a s = some s') (hf : f ∈ s'.out) :
    (f ∈ s.out ∧ s'.fb f = s.fb f)
      ∨ (∃ half, a = .vsync half) ∧ s.pc = .receive ∧ s.state = .readBuf
        ∧ f = s.framePos ∧ (s.fb f).length = c.fbSize := by
  by_cases hout : f ∈ s.out
  · exact .inl ⟨hout, h.out_frame hraw hout happ⟩
  · have h' := h.step happ
    have hlt := h'.ledger.owned f hf
    rcases State.apply_en hraw ((h.ledger.free_iff f hlt).mpr hout) happ with
      hen | hfull
    · exact absurd hf ((h'.ledger.free_iff f hlt).mp hen)
    · exact .inr hfull

end

-- ============================================== the frame that is filled

section

variable {c : CaptureConfig} {s s' : Capture} {bs : List UInt8}

/-- How many half-buffers wait for `cam_task`. -/
def Capture.pending (s : Capture) : Nat :=
  (s.camEvent.toList ++ s.eventQueue).count .inSucEof

variable (c) in
/-- The timing that `cam_task` relies on: it has copied a half-buffer
before the queue is full, and starts a frame when no half-buffer of the
last one is waiting. -/
def Capture.Timely (s : Capture) : CaptureAction → Prop
  | .handle => s.camEvent = some .inSucEof → s.drv.state = .readBuf →
      s.eventQueue.length < c.eventQueueLen
  | .task => s.drv.starts c.toConfig = true → s.pending = 0
  | _ => True

instance (s : Capture) (a : CaptureAction) : Decidable (s.Timely c a) := by
  cases a <;> unfold Capture.Timely <;> infer_instance

variable (c) in
/-- The DMA has written `bs`, and its events are those that `cam_task` has
dealt with and those that wait. -/
structure Live (s : Capture) (bs : List UInt8) : Prop where
  running : s.running = true
  written : s.written = bs.length
  ring : Ring.Holds (c.dmaHalfBufferCnt * c.dmaHalfBufferSize) s.dmaBuffer bs
  count : s.drv.cnt + s.pending = bs.length / c.dmaHalfBufferSize

variable (c) in
/-- Of the bytes `bs` of a frame, the first half-buffers are in it. The
DMA is running, or it was stopped because the frame is full. -/
structure Fed (s : Capture) (bs : List UInt8) : Prop where
  frame : s.drv.fb s.drv.framePos
    = bs.take (s.drv.cnt * c.dmaHalfBufferSize)
  received : s.drv.cnt * c.dmaHalfBufferSize ≤ bs.length
  dma : Live c s bs
    ∨ s.running = false ∧ c.fbSize < (s.drv.cnt + 1) * c.dmaHalfBufferSize

theorem Fed.length (h : Fed c s bs) :
    (s.drv.fb s.drv.framePos).length = s.drv.cnt * c.dmaHalfBufferSize := by
  rw [h.frame, List.length_take, Nat.min_eq_left h.received]

/-- An event that does not fit into the queue ends the frame. -/
theorem Capture.sendEvent_room {e : CamEvent}
    (hstate : (s.sendEvent c e).drv.state = .readBuf) :
    s.sendEvent c e = { s with eventQueue := s.eventQueue ++ [e] } := by
  rw [Capture.sendEvent] at hstate ⊢
  split at hstate
  next hroom => exact if_pos hroom
  next => cases hstate

theorem Capture.pending_push (e : CamEvent) :
    Capture.pending { s with eventQueue := s.eventQueue ++ [e] }
      = s.pending + List.count .inSucEof [e] := by
  simp only [Capture.pending, List.count_append, Nat.add_assoc]

theorem Fed.byte (h : Fed c s bs) (b : UInt8)
    (hstate : (s.byte c b).drv.state = .readBuf) :
    Fed c (s.byte c b) (bs ++ [b]) := by
  have htake : (bs ++ [b]).take (s.drv.cnt * c.dmaHalfBufferSize)
      = bs.take (s.drv.cnt * c.dmaHalfBufferSize) :=
    List.take_append_of_le_length h.received
  have hlen : (bs ++ [b]).length = bs.length + 1 := List.length_append
  have hreceived : s.drv.cnt * c.dmaHalfBufferSize ≤ (bs ++ [b]).length := by
    rw [hlen]
    exact Nat.le_succ_of_le h.received
  have hframe := h.frame.trans htake.symm
  rcases h.dma with hlive | ⟨hstopped, hfull⟩
  · have hring := hlive.ring.write b
    rw [← hlive.written] at hring
    rw [Capture.byte, if_pos hlive.running] at hstate ⊢
    dsimp only at hstate ⊢
    rw [hlive.written] at hstate ⊢
    by_cases hend : (bs.length + 1) % c.dmaHalfBufferSize = 0
    · rw [if_pos hend] at hstate ⊢
      rw [Capture.sendEvent_room hstate]
      refine ⟨hframe, hreceived, .inl ⟨hlive.running, hlen.symm, ?_, ?_⟩⟩
      · rw [← hlive.written]
        exact hring
      · rw [Capture.pending_push, hlen,
          Nat.succ_div_of_dvd (Nat.dvd_of_mod_eq_zero hend), ← hlive.count]
        rfl
    · rw [if_neg hend]
      refine ⟨hframe, hreceived, .inl ⟨hlive.running, hlen.symm, ?_, ?_⟩⟩
      · rw [← hlive.written]
        exact hring
      · rw [hlen, Nat.succ_div_of_not_dvd fun hd =>
          hend (Nat.mod_eq_zero_of_dvd hd)]
        exact hlive.count
  · have hsame : s.byte c b = s := by
      rw [Capture.byte, if_neg (by rw [hstopped]; exact Bool.false_ne_true)]
    rw [hsame]
    exact ⟨hframe, hreceived, .inr ⟨hstopped, hfull⟩⟩

/-- Steps that change neither the frame nor the DMA, nor what waits. -/
theorem Fed.congr (h : Fed c s bs)
    (hframe : s'.drv.fb s'.drv.framePos = s.drv.fb s.drv.framePos)
    (hcnt : s'.drv.cnt = s.drv.cnt) (hrunning : s'.running = s.running)
    (hwritten : s'.written = s.written) (hbuf : s'.dmaBuffer = s.dmaBuffer)
    (hpending : s'.pending = s.pending) : Fed c s' bs := by
  refine ⟨?_, ?_, ?_⟩
  · rw [hframe, hcnt]
    exact h.frame
  · rw [hcnt]
    exact h.received
  · rcases h.dma with hlive | hstopped
    · refine .inl ⟨hrunning.trans hlive.running,
        hwritten.trans hlive.written, ?_, ?_⟩
      · rw [hbuf]
        exact hlive.ring
      · rw [hcnt, hpending]
        exact hlive.count
    · rw [hcnt, hrunning]
      exact .inr hstopped

theorem Fed.vsync (h : Fed c s bs)
    (hstate : (s.sendEvent c .vsync).drv.state = .readBuf) :
    Fed c (s.sendEvent c .vsync) bs := by
  rw [Capture.sendEvent_room hstate]
  exact h.congr rfl rfl rfl rfl rfl (Capture.pending_push .vsync)

theorem Fed.receive {e : CamEvent} {rest : List CamEvent} (h : Fed c s bs)
    (hevent : s.camEvent = none) (hqueue : s.eventQueue = e :: rest) :
    Fed c { s with camEvent := some e, eventQueue := rest } bs := by
  refine h.congr rfl rfl rfl rfl rfl ?_
  rw [Capture.pending, Capture.pending, hevent, hqueue]
  rfl

/-- What `cam_task` copies is the half-buffer behind those that it has, if
the queue is not full. -/
theorem Live.half (h : Live c s bs) (hevent : s.camEvent = some .inSucEof)
    (hroom : s.eventQueue.length < c.eventQueueLen) :
    (s.drv.cnt + 1) * c.dmaHalfBufferSize ≤ bs.length
      ∧ s.half c = (bs.drop (s.drv.cnt * c.dmaHalfBufferSize)).take
        c.dmaHalfBufferSize := by
  have hpos := c.half_pos
  have hcnt := c.cnt_ge
  have hpending : s.pending = s.eventQueue.count .inSucEof + 1 := by
    rw [Capture.pending, hevent]
    exact List.count_cons_self
  have hle := List.count_le_length (a := CamEvent.inSucEof) (l := s.eventQueue)
  rw [CaptureConfig.eventQueueLen, if_neg (by omega)] at hroom
  have hdiv := h.count
  -- The DMA is in one of the half-buffers behind this one.
  have hin : (s.drv.cnt + 1) * c.dmaHalfBufferSize ≤ bs.length := by
    rw [← Nat.le_div_iff_mul_le hpos]
    omega
  have hlate : bs.length ≤ s.drv.cnt * c.dmaHalfBufferSize
      + c.dmaHalfBufferCnt * c.dmaHalfBufferSize := by
    rw [← Nat.add_mul]
    refine Nat.le_of_lt ((Nat.div_lt_iff_lt_mul hpos).mp ?_)
    omega
  refine ⟨hin, ?_⟩
  rw [Nat.add_mul, Nat.one_mul] at hin
  rw [← h.ring.block hin hlate, Ring.block_eq hpos]
  rfl

theorem Fed.eof (h : Fed c s bs) (hraw : c.jpegMode = false)
    (hstate : s.drv.state = .readBuf) (hevent : s.camEvent = some .inSucEof)
    (hroom : s.eventQueue.length < c.eventQueueLen) :
    Fed c { s with
      drv := s.drv.onEof c.toConfig (s.half c)
      running := s.running && !s.drv.stops c.toConfig (s.half c)
      camEvent := none } bs := by
  have hstops : s.drv.stops c.toConfig (s.half c)
      = decide (c.fbSize < (s.drv.cnt + 1) * c.dmaHalfBufferSize) := by
    rw [State.stops, h.length, Nat.add_mul, Nat.one_mul]
    simp only [hstate, hraw, Bool.false_eq_true, false_and, or_false, true_and]
  rw [hstops, State.onEof_raw _ hraw hstate, h.length]
  by_cases hfull : c.fbSize < (s.drv.cnt + 1) * c.dmaHalfBufferSize
  · have hfull' := hfull
    rw [Nat.add_mul, Nat.one_mul] at hfull'
    rw [if_pos hfull', decide_eq_true hfull, Bool.not_true, Bool.and_false]
    exact ⟨h.frame, h.received, .inr ⟨rfl, hfull⟩⟩
  · have hlive := h.dma.resolve_right fun hno => hfull hno.2
    obtain ⟨hin, hhalf⟩ := hlive.half hevent hroom
    have hfull' := hfull
    rw [Nat.add_mul, Nat.one_mul] at hfull'
    rw [if_neg hfull', decide_eq_false hfull, Bool.not_false, Bool.and_true]
    refine ⟨?_, hin, .inl ⟨hlive.running, hlive.written, hlive.ring, ?_⟩⟩
    · dsimp only
      rw [Function.update_self, h.frame, hhalf, Nat.add_mul, Nat.one_mul,
        List.take_add]
    · have hpending : s.pending = s.eventQueue.count .inSucEof + 1 := by
        rw [Capture.pending, hevent]
        exact List.count_cons_self
      rw [← hlive.count, hpending]
      show s.drv.cnt + 1 + s.eventQueue.count .inSucEof = _
      omega

end

end SitNChow.Camera
