/-
The camera driver (cam_hal.c): `cam_task` fills frame buffers from the
half-buffers that the DMA reports, and hands them to the application by a
queue; `cam_take` and `cam_give` are the application's side.

# The steps

A frame buffer has a flag `en`, which says that the driver may fill it.
Tasks and the interrupt handler share the flags, the queue and the
driver's state, so every access of `cam_task` to one of them is a step of
its own (`TaskPc`). The handling of a half-buffer is one step: it
touches only the frame being filled, its length and `cnt`, which are
`cam_task`'s alone, and a state that the interrupt handler sets to idle
meanwhile stays idle.

# What is out

`State.out` lists the frames that are in `cam_task`'s hands, in the queue
and at the application. The invariant `Inv` says that it agrees with the
flags, a ledger of `Kit.Pool`; and that a frame in it is whole: of the
full size, or in JPEG mode with its start marker in place.
-/
import SitNChow.Kit.Machine
import SitNChow.Kit.Pool

namespace SitNChow.Camera

open Kit Kit.Pool

-- ========================================================== the markers

/-- `JPEG_SOI_MARKER` -/
def jpegSoi : List UInt8 := [0xFF, 0xD8, 0xFF]

/-- `JPEG_EOI_BYTES` -/
def jpegEoi : List UInt8 := [0xFF, 0xD9]

/-- `cam_verify_jpeg_soi`: where the first start marker is. -/
def camVerifyJpegSoi : List UInt8 → Option Nat
  | [] => none
  | b :: inbuf =>
      if (b :: inbuf).take 3 = jpegSoi then some 0
      else (camVerifyJpegSoi inbuf).map (· + 1)

/-- The search of `cam_verify_jpeg_eoi` down from a position. -/
def eoiFrom (inbuf : List UInt8) : Nat → Option Nat
  | 0 => if inbuf.take 2 = jpegEoi then some 0 else none
  | n + 1 =>
      if (inbuf.drop (n + 1)).take 2 = jpegEoi then some (n + 1)
      else eoiFrom inbuf n

/-- `cam_verify_jpeg_eoi` with `search_forward` false: where the last end
marker is. -/
def camVerifyJpegEoi (inbuf : List UInt8) : Option Nat :=
  if inbuf.length < 2 then none else eoiFrom inbuf (inbuf.length - 2)

-- ============================================================ the driver

/-- `cam_state_t` -/
inductive CamState where
  | idle
  | readBuf
deriving DecidableEq

/-- The settings of `cam_config`: the number of frame buffers, the length
of `frame_buffer_queue`, the size of a buffer, and the size of the
half-buffer that comes with an event. -/
structure Config where
  frameCnt : Nat
  queueLen : Nat
  jpegMode : Bool
  fbSize : Nat
  dmaHalfBufferSize : Nat
  frameCnt_pos : 0 < frameCnt

/-- Where `cam_task` is: waiting for an event; with a frame to queue;
with a full queue; with a frame taken off the queue, before and after the
second attempt to queue its own; in `cam_get_next_frame` at the current
frame, and at frame `x` of its loop. -/
inductive TaskPc where
  | receive
  | send
  | pop
  | resend (fb2 : Nat)
  | give (fb2 : Nat)
  | next (state : CamState)
  | scan (state : CamState) (x : Nat)
deriving DecidableEq

/-- The driver and the frames that the application has: `taken` from the
queue by `cam_take` and not checked yet, and `held` after that. Of a
frame buffer, `fb` is as much as `len` counts. -/
structure State where
  en : Nat → Bool
  fb : Nat → List UInt8
  queue : List Nat
  state : CamState
  framePos : Nat
  cnt : Nat
  pc : TaskPc
  taken : List Nat
  held : List Nat

/-- After `cam_start`. -/
def State.init : State where
  en _ := true
  fb _ := []
  queue := []
  state := .idle
  framePos := 0
  cnt := 0
  pc := .receive
  taken := []
  held := []

/-- A step: an event for `cam_task` with the half-buffer that the DMA has
filled, the next access of `cam_task`, the interrupt handler finding the
event queue full, and the application's `cam_take`, its check of the
frame, and `cam_give`. -/
inductive Action where
  | eof (half : List UInt8)
  | vsync (half : List UInt8)
  | task
  | overflow
  | take
  | check (f : Nat)
  | give (f : Nat)

variable (c : Config)

/-- `CAM_IN_SUC_EOF_EVENT`: the half-buffer is appended, if there is
room, and the first one of a JPEG frame must have the start marker. -/
def State.onEof (half : List UInt8) (s : State) : State :=
  match s.state with
  | .idle => s
  | .readBuf =>
      if c.fbSize < (s.fb s.framePos).length + c.dmaHalfBufferSize then s
      else
        let buf := s.fb s.framePos ++ half
        let s := { s with fb := Function.update s.fb s.framePos buf }
        if c.jpegMode = true ∧ s.cnt = 0 ∧ camVerifyJpegSoi buf ≠ some 0
        then { s with state := .idle }
        else { s with cnt := s.cnt + 1 }

/-- `CAM_VSYNC_EVENT`: the frame is at its end. A JPEG frame takes what
there is of the last half-buffer; another must have its full size. -/
def State.onVsync (half : List UInt8) (s : State) : State :=
  match s.state with
  | .idle => { s with pc := .next .idle }
  | .readBuf =>
      if s.cnt ≠ 0 ∨ c.jpegMode = false then
        let buf := s.fb s.framePos
        let buf := if c.jpegMode = true
          ∧ buf.length + c.dmaHalfBufferSize ≤ c.fbSize then buf ++ half
          else buf
        let s := { s with fb := Function.update s.fb s.framePos buf }
        if c.jpegMode = true ∨ buf.length = c.fbSize then
          { s with en := Function.update s.en s.framePos false, pc := .send }
        else { s with pc := .next .readBuf }
      else { s with pc := .next .readBuf }

/-- `cam_start_frame` has a frame: it is filled from its beginning. -/
def State.started (state : CamState) (pos : Nat) (s : State) : State :=
  { s with
    framePos := pos, fb := Function.update s.fb pos [], cnt := 0
    pc := .receive
    state := match state with
      | .idle => .readBuf
      | .readBuf => s.state }

/-- `cam_start_frame` has none. -/
def State.notStarted (state : CamState) (s : State) : State :=
  { s with
    cnt := 0, pc := .receive
    state := match state with
      | .idle => s.state
      | .readBuf => .idle }

/-- The next access of `cam_task`. -/
def State.task (s : State) : Option State :=
  match s.pc with
  | .receive => none
  | .send =>
      if s.queue.length < c.queueLen then
        some { s with queue := s.queue ++ [s.framePos], pc := .next .readBuf }
      else some { s with pc := .pop }
  | .pop =>
      match s.queue with
      | [] => some { s with
          en := Function.update s.en s.framePos true, pc := .next .readBuf }
      | fb2 :: queue => some { s with queue := queue, pc := .resend fb2 }
  | .resend fb2 =>
      if s.queue.length < c.queueLen then
        some { s with queue := s.queue ++ [s.framePos], pc := .give fb2 }
      else some { s with
        en := Function.update s.en s.framePos true, pc := .give fb2 }
  | .give fb2 =>
      some { s with en := Function.update s.en fb2 true, pc := .next .readBuf }
  | .next state =>
      if s.en s.framePos = true then some (s.started state s.framePos)
      else some { s with pc := .scan state 0 }
  | .scan state x =>
      if x < c.frameCnt then
        if s.en x = true then some (s.started state x)
        else some { s with pc := .scan state (x + 1) }
      else some (s.notStarted state)

/-- The check of `cam_take`: in JPEG mode the frame is cut behind its last
end marker; without one it goes back. -/
def State.check (f : Nat) (s : State) : State :=
  let s := { s with taken := s.taken.erase f }
  if c.jpegMode = true then
    match camVerifyJpegEoi (s.fb f) with
    | some offsetE => { s with
        fb := Function.update s.fb f ((s.fb f).take (offsetE + 2))
        held := f :: s.held }
    | none => { s with en := Function.update s.en f true }
  else { s with held := f :: s.held }

def State.apply : Action → State → Option State
  | .eof half, s =>
      if s.pc = .receive ∧ half.length = c.dmaHalfBufferSize
      then some (s.onEof c half) else none
  | .vsync half, s =>
      if s.pc = .receive ∧ half.length = c.dmaHalfBufferSize
      then some (s.onVsync c half) else none
  | .task, s => s.task c
  | .overflow, s => some { s with state := .idle }
  | .take, s =>
      match s.queue with
      | [] => none
      | f :: queue => some { s with queue := queue, taken := f :: s.taken }
  | .check f, s => if f ∈ s.taken then some (s.check c f) else none
  | .give f, s =>
      if f ∈ s.held then some { s with
        en := Function.update s.en f true, held := s.held.erase f }
      else none

/-- The driver with its application. -/
def machine : Machine State Action := ⟨State.init, State.apply c⟩

end SitNChow.Camera
