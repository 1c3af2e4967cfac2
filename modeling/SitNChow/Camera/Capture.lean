/-
How the camera's bytes come to `cam_task` (ll_cam.c, cam_hal.c).

The DMA writes what the sensor sends into `dma_buffer`, round and round,
and the interrupt handler puts an event into `event_queue` at the end of
each half-buffer and of each frame. `cam_task` takes an event, copies the
half-buffer that its own count says, and goes on. Nothing else keeps the
two together: when the queue is full, the interrupt handler stops the DMA
and the frame is given up.

# Two levels

`Capture` has the driver of `Driver` inside it, whose events here get
their half-buffers from `dma_buffer`. Each step of it is at most one step
of that driver (`Capture.apply_erase`), so whatever holds of the driver's
runs holds here too.
-/
import SitNChow.Camera.Delivery
import SitNChow.Camera.Dma
import SitNChow.Kit.Ring

namespace SitNChow.Camera

open Kit

/-- `cam_event_t` -/
inductive CamEvent where
  | inSucEof
  | vsync
deriving DecidableEq

/-- The driver with its hardware: whether the DMA is running, what is in
`dma_buffer`, and how many bytes went there since `ll_cam_start`.
`camEvent` is the event that `cam_task` has taken from the queue and is
working on. -/
structure Capture where
  drv : State
  running : Bool
  dmaBuffer : Nat → UInt8
  written : Nat
  eventQueue : List CamEvent
  camEvent : Option CamEvent

/-- A step: the sensor sends a byte, or ends its frame; `cam_task` takes an
event, or has finished with one; and the steps of `Action`. -/
inductive CaptureAction where
  | byte (b : UInt8)
  | vsync
  | receive
  | handle
  | task
  | take
  | check (f : Nat)
  | give (f : Nat)

variable (c : CaptureConfig)

/-- The length of `event_queue`. -/
def CaptureConfig.eventQueueLen : Nat :=
  if c.dmaHalfBufferCnt - 1 = 0 then 1 else c.dmaHalfBufferCnt - 1

/-- `ll_cam_send_event` -/
def Capture.sendEvent (camEvent : CamEvent) (s : Capture) : Capture :=
  if s.eventQueue.length < c.eventQueueLen then
    { s with eventQueue := s.eventQueue ++ [camEvent] }
  else { s with running := false, drv := { s.drv with state := .idle } }

/-- A byte comes to the DMA. The interrupt at the end of a half-buffer is
taken to come at once, before the next byte. -/
def Capture.byte (b : UInt8) (s : Capture) : Capture :=
  if s.running = true then
    let s := { s with
      dmaBuffer := Kit.Ring.write (c.dmaHalfBufferCnt * c.dmaHalfBufferSize)
        s.written b s.dmaBuffer
      written := s.written + 1 }
    if s.written % c.dmaHalfBufferSize = 0 then s.sendEvent c .inSucEof else s
  else s

/-- The half-buffer that `cam_task` reads. -/
def Capture.half (s : Capture) : List UInt8 :=
  (List.range c.dmaHalfBufferSize).map fun i => s.dmaBuffer
    (s.drv.cnt % c.dmaHalfBufferCnt * c.dmaHalfBufferSize + i)

/-- With this half-buffer `cam_task` calls `ll_cam_stop`: there is no room
for it, or the start marker is missing. -/
def State.stops (c : Config) (half : List UInt8) (s : State) : Bool :=
  s.state = .readBuf ∧ (c.fbSize < (s.fb s.framePos).length
      + c.dmaHalfBufferSize
    ∨ (c.jpegMode = true ∧ s.cnt = 0
      ∧ camVerifyJpegSoi (s.fb s.framePos ++ half) ≠ some 0))

/-- `cam_task` does what the event asks for. -/
def Capture.handle (s : Capture) : Option Capture :=
  match s.camEvent with
  | none => none
  | some .inSucEof => some { s with
      drv := s.drv.onEof c.toConfig (s.half c)
      running := s.running && !s.drv.stops c.toConfig (s.half c)
      camEvent := none }
  | some .vsync => some { s with
      drv := s.drv.onVsync c.toConfig (s.half c)
      running := s.running && decide (s.drv.state = .idle)
      camEvent := none }

/-- The next access of `cam_task` is the one with which `cam_start_frame`
finds a frame. -/
def State.starts (c : Config) (s : State) : Bool :=
  match s.pc with
  | .next _ => s.en s.framePos
  | .scan _ x => x < c.frameCnt && s.en x
  | _ => false

/-- The next access of `cam_task`, with `ll_cam_start`. -/
def Capture.task (s : Capture) : Option Capture :=
  (s.drv.task c.toConfig).map fun drv =>
    if s.drv.starts c.toConfig = true then
      { s with drv := drv, running := true, written := 0 }
    else { s with drv := drv }

/-- A step of the application. -/
def Capture.app (a : Action) (s : Capture) : Option Capture :=
  (State.apply c.toConfig a s.drv).map fun drv => { s with drv := drv }

def Capture.apply : CaptureAction → Capture → Option Capture
  | .byte b, s => some (s.byte c b)
  | .vsync, s => some (s.sendEvent c .vsync)
  | .receive, s =>
      match s.camEvent, s.eventQueue with
      | none, e :: rest =>
          if s.drv.pc = .receive then
            some { s with camEvent := some e, eventQueue := rest }
          else none
      | _, _ => none
  | .handle, s => if s.drv.pc = .receive then s.handle c else none
  | .task, s => s.task c
  | .take, s => s.app c .take
  | .check f, s => s.app c (.check f)
  | .give f, s => s.app c (.give f)

/-- The driver with its hardware and its application, after `cam_start`;
`memory` is what `dma_buffer` has in it from before. -/
def capture (memory : Nat → UInt8) : Machine Capture CaptureAction where
  init := {
    drv := State.init
    running := false
    dmaBuffer := memory
    written := 0
    eventQueue := []
    camEvent := none }
  apply := Capture.apply c

-- ====================================================== the driver inside

/-- What `ll_cam_send_event` does to the driver. -/
def CaptureConfig.eraseSend (eventQueue : List CamEvent) : List Action :=
  if eventQueue.length < c.eventQueueLen then [] else [.overflow]

/-- The step of the driver that a step is. -/
def Capture.erase (s : Capture) : CaptureAction → List Action
  | .byte _ =>
      if s.running = true ∧ (s.written + 1) % c.dmaHalfBufferSize = 0 then
        c.eraseSend s.eventQueue
      else []
  | .vsync => c.eraseSend s.eventQueue
  | .receive => []
  | .handle =>
      match s.camEvent with
      | none => []
      | some .inSucEof => [.eof (s.half c)]
      | some .vsync => [.vsync (s.half c)]
  | .task => [.task]
  | .take => [.take]
  | .check f => [.check f]
  | .give f => [.give f]

variable {c} {s s' : Capture}

/-- A half-buffer has its size. -/
theorem Capture.length_half (s : Capture) :
    (s.half c).length = c.dmaHalfBufferSize := by
  rw [Capture.half, List.length_map, List.length_range]

/-- Sending an event is an overflow for the driver where the queue is full,
and nothing else. -/
theorem Capture.sendEvent_erase (e : CamEvent) (s : Capture) :
    (machine c.toConfig).run s.drv (c.eraseSend s.eventQueue)
      = some (s.sendEvent c e).drv := by
  rw [CaptureConfig.eraseSend, Capture.sendEvent]
  split
  next => rfl
  next => rfl

/-- A single step as a run. -/
theorem run_singleton {d d' : State} {a : Action}
    (happ : State.apply c.toConfig a d = some d') :
    (machine c.toConfig).run d [a] = some d' :=
  Machine.run_cons (M := machine c.toConfig) happ

/-- A step of the application is the same step of the driver. -/
theorem Capture.app_inv {a : Action} (happ : s.app c a = some s') :
    State.apply c.toConfig a s.drv = some s'.drv := by
  obtain ⟨d, hd, rfl⟩ := Option.map_eq_some_iff.mp happ
  exact hd

/-- A step is at most one step of the driver inside. -/
theorem Capture.apply_erase {a : CaptureAction}
    (happ : Capture.apply c a s = some s') :
    (machine c.toConfig).run s.drv (s.erase c a) = some s'.drv := by
  cases a with
  | byte b =>
      obtain rfl := Option.some.inj happ
      rw [Capture.erase, Capture.byte]
      by_cases hrun : s.running = true
      · rw [if_pos hrun]
        dsimp only
        by_cases hend : (s.written + 1) % c.dmaHalfBufferSize = 0
        · rw [if_pos hend, if_pos ⟨hrun, hend⟩]
          exact Capture.sendEvent_erase (c := c) .inSucEof { s with
            dmaBuffer := Ring.write (c.dmaHalfBufferCnt
              * c.dmaHalfBufferSize) s.written b s.dmaBuffer
            written := s.written + 1 }
        · rw [if_neg hend, if_neg fun h => hend h.2]
          rfl
      · rw [if_neg hrun, if_neg fun h => hrun h.1]
        rfl
  | vsync =>
      obtain rfl := Option.some.inj happ
      exact Capture.sendEvent_erase .vsync s
  | receive =>
      rw [Capture.apply] at happ
      split at happ
      next =>
        split at happ
        next =>
          obtain rfl := Option.some.inj happ
          rfl
        next => cases happ
      next => cases happ
  | handle =>
      rw [Capture.apply] at happ
      split at happ
      next hpc =>
        rw [Capture.handle] at happ
        cases hevent : s.camEvent with
        | none => rw [hevent] at happ; cases happ
        | some e =>
            rw [hevent] at happ
            rw [Capture.erase, hevent]
            cases e with
            | inSucEof =>
                obtain rfl := Option.some.inj happ
                exact run_singleton (if_pos ⟨hpc, s.length_half⟩)
            | vsync =>
                obtain rfl := Option.some.inj happ
                exact run_singleton (if_pos ⟨hpc, s.length_half⟩)
      next => cases happ
  | task =>
      obtain ⟨d, hd, rfl⟩ := Option.map_eq_some_iff.mp happ
      refine run_singleton (hd.trans ?_)
      split <;> rfl
  | take => exact run_singleton (Capture.app_inv happ)
  | check f => exact run_singleton (Capture.app_inv happ)
  | give f => exact run_singleton (Capture.app_inv happ)

/-- A step of the hardware is at most one of the driver. -/
theorem Capture.length_erase (s : Capture) (a : CaptureAction) :
    (s.erase c a).length ≤ 1 := by
  have hsend : ∀ queue, (c.eraseSend queue).length ≤ 1 := by
    intro queue
    rw [CaptureConfig.eraseSend]
    split
    next => exact Nat.zero_le _
    next => exact Nat.le_refl _
  cases a with
  | byte b =>
      rw [Capture.erase]
      split
      next => exact hsend _
      next => exact Nat.zero_le _
  | vsync => exact hsend _
  | handle =>
      rw [Capture.erase]
      split
      next => exact Nat.zero_le _
      next => exact Nat.le_refl _
      next => exact Nat.le_refl _
  | receive => exact Nat.zero_le _
  | task | take | check f | give f => exact Nat.le_refl _

/-- What is reached with the hardware is reached by the driver alone. -/
theorem Capture.reachable_drv {memory : Nat → UInt8}
    (hr : (capture c memory).Reachable s) :
    (machine c.toConfig).Reachable s.drv := by
  refine hr.invariant (I := fun s => (machine c.toConfig).Reachable s.drv)
    .init ?_
  intro s a s' h _ happ
  exact h.run_of_obeys (Machine.obeys_true _ _) (Capture.apply_erase happ)

end SitNChow.Camera
