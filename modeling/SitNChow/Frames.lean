/-
The camera pipeline (main.c): `camera_capture_task` takes frames from
the driver and queues them, `ws_send_task` receives, converts and sends
them, and each frame goes back to the driver by `esp_camera_fb_return`.

# Frames

The driver has two buffers. A frame pointer names the camera
initialisation it comes from and its buffer, so pointers into a torn-down
camera stay distinguishable from those of the next one. `fb_get` hands
out a buffer the driver has, or NULL.

# Teardown

After three failed `fb_get` calls in a row the capture task calls
`reinit_camera`, which frees every buffer. `NoLiveFrame` says that no
frame is then queued or held by the sender, from the third failure on to
the teardown; `FreeAtThird` is the condition under which a run has it, and
`no_live_frame_iff` says that it is exact.
-/
import SitNChow.Kit.Machine

namespace SitNChow.Frames

open Kit

-- ============================================================ the driver

/-- A `camera_fb_t *`: the initialisation it comes from and its
buffer. -/
structure Frame where
  gen : Nat
  idx : Fin 2
deriving DecidableEq

/-- The driver: how often it has been initialised, whether it is
(`s_state` non-NULL), and the frames handed out and not given back. -/
structure Camera where
  gen : Nat
  inited : Bool
  out : List Frame

/-- `esp_camera_fb_return`: nothing without a driver; otherwise the
frame's buffer is enabled again. -/
def Camera.fbReturn (f : Frame) (c : Camera) : Camera :=
  if c.inited then { c with out := c.out.erase f } else c

/-- `esp_camera_deinit`: every buffer is freed. -/
def Camera.deinit (c : Camera) : Camera :=
  { c with inited := false, out := [] }

/-- `init_camera`: new buffers, or none when it fails. -/
def Camera.init (ok : Bool) (c : Camera) : Camera :=
  if ok then { gen := c.gen + 1, inited := true, out := [] } else c

-- ============================================================= the tasks

/-- `xQueueCreate(4, ..)`. -/
def queueDepth : Nat := 4

/-- `MAX_FAILURES`. -/
def maxFailures : Nat := 3

/-- Where `camera_capture_task` is: at the top of its loop, at `fb_get`,
with a frame (and its length), about to queue it or to return it, and
inside `reinit_camera` at the teardown or at the initialisation. -/
inductive CapturePc where
  | top
  | get
  | got (f : Frame) (len : Nat)
  | send (f : Frame)
  | giveBack (f : Frame)
  | deinit
  | init
deriving DecidableEq

/-- Where `ws_send_task` is: receiving, with a frame to convert, sending
it (from the frame's own buffer or from a converted copy), returning
it. -/
inductive SenderPc where
  | receive
  | got (f : Frame)
  | transmit (f : Frame) (converted : Bool)
  | giveBack (f : Frame)
deriving DecidableEq

/-- The frame the sender holds, between `xQueueReceive` and
`esp_camera_fb_return`. -/
def SenderPc.held : SenderPc → Option Frame
  | .receive => none
  | .got f | .transmit f _ | .giveBack f => some f

/-- The pipeline: both tasks, the failure count, the queue (oldest
first) and the driver. -/
structure State where
  capture : CapturePc
  failures : Nat
  queue : List Frame
  sender : SenderPc
  camera : Camera

/-- After a successful `init_camera`. -/
def State.init : State where
  capture := .top
  failures := 0
  queue := []
  sender := .receive
  camera := { gen := 0, inited := true, out := [] }

/-- The steps of both tasks; what the environment decides comes with the
step: the streaming flag read, the buffer (and length) of a frame got or
NULL, the outcome of `init_camera`, the frame's format and
`frame2jpg`'s outcome. -/
inductive Action where
  | top (streaming : Bool)
  | fbGet (frame : Option (Fin 2 × Nat))
  | check
  | queueSend
  | captureReturn
  | deinit
  | init (ok : Bool)
  | receive
  | convert (jpeg ok : Bool)
  | transmit
  | senderReturn
deriving DecidableEq

/-- `esp_camera_fb_get` in the capture loop. A frame must be one the
driver has; the third NULL in a row leads to `reinit_camera`. -/
def State.fbGet (frame : Option (Fin 2 × Nat)) (s : State) : Option State :=
  match frame with
  | some (idx, len) =>
      let f : Frame := { gen := s.camera.gen, idx := idx }
      if s.camera.inited = true ∧ f ∉ s.camera.out then
        some { s with capture := .got f len, failures := 0
                      camera := { s.camera with out := f :: s.camera.out } }
      else none
  | none =>
      let failures := s.failures + 1
      if failures ≥ maxFailures then
        some { s with failures := 0, capture := .deinit }
      else some { s with failures := failures, capture := .top }

/-- The transition. -/
def State.apply : Action → State → Option State
  | .top streaming, s =>
      match s.capture with
      | .top => some { s with capture := if streaming then .get else .top }
      | _ => none
  | .fbGet frame, s =>
      match s.capture with
      | .get => s.fbGet frame
      | _ => none
  | .check, s =>
      match s.capture with
      | .got f len =>
          some { s with capture := if len < 100 then .giveBack f else .send f }
      | _ => none
  | .queueSend, s =>
      match s.capture with
      | .send f =>
          if s.queue.length < queueDepth then
            some { s with queue := s.queue ++ [f], capture := .top }
          else some { s with capture := .giveBack f }
      | _ => none
  | .captureReturn, s =>
      match s.capture with
      | .giveBack f =>
          some { s with camera := s.camera.fbReturn f, capture := .top }
      | _ => none
  | .deinit, s =>
      match s.capture with
      | .deinit => some { s with camera := s.camera.deinit, capture := .init }
      | _ => none
  | .init ok, s =>
      match s.capture with
      | .init => some { s with camera := s.camera.init ok, capture := .top }
      | _ => none
  | .receive, s =>
      match s.sender, s.queue with
      | .receive, f :: rest => some { s with sender := .got f, queue := rest }
      | .receive, [] => some s
      | _, _ => none
  | .convert jpeg ok, s =>
      match s.sender with
      | .got f =>
          some { s with sender :=
            if jpeg then .transmit f false
            else if ok then .transmit f true
            else .giveBack f }
      | _ => none
  | .transmit, s =>
      match s.sender with
      | .transmit f _ => some { s with sender := .giveBack f }
      | _ => none
  | .senderReturn, s =>
      match s.sender with
      | .giveBack f =>
          some { s with camera := s.camera.fbReturn f, sender := .receive }
      | _ => none

/-- The pipeline as a machine. -/
def pipeline : Machine State Action where
  init := State.init
  apply := State.apply

-- ========================================================== the property

/-- No frame is queued and none is held by the sender. -/
def State.drained (s : State) : Prop :=
  s.queue = [] ∧ s.sender.held = none

/-- Whenever the capture task is about to tear the camera down, no frame
is queued or held by the sender. -/
def NoLiveFrame (s : State) : Prop := s.capture = .deinit → s.drained

/-- A third failed `fb_get` in a row finds no frame queued or held. -/
def FreeAtThird (s : State) : Action → Prop
  | .fbGet none => maxFailures ≤ s.failures + 1 → s.drained
  | _ => True

variable {s s' : State}

/-- A failed `fb_get` touches neither queue nor sender, and leads to the
teardown exactly when it is the third. -/
theorem State.fbGet_none (h : s.apply (.fbGet none) = some s') :
    s'.queue = s.queue ∧ s'.sender = s.sender
      ∧ (s'.capture = .deinit ↔ maxFailures ≤ s.failures + 1) := by
  simp only [State.apply, State.fbGet] at h
  split at h
  · split at h
    · next hmax =>
      rw [← Option.some.inj h]
      exact ⟨rfl, rfl, fun _ => hmax, fun _ => rfl⟩
    · next hmax =>
      rw [← Option.some.inj h]
      exact ⟨rfl, rfl, fun hc => (nomatch hc), fun hm => absurd hm hmax⟩
  · cases h

/-- No other step leads to the teardown, and one made at the teardown
takes frames from the queue or the sender only. -/
theorem State.apply_deinit {a : Action} (ha : a ≠ .fbGet none)
    (h : s.apply a = some s') (hd : s'.capture = .deinit) :
    s.capture = .deinit ∧ (s.drained → s'.drained) := by
  cases a with
  | top streaming =>
      simp only [State.apply] at h
      split at h
      · rw [← Option.some.inj h] at hd
        cases streaming <;> cases hd
      · cases h
  | fbGet frame =>
      cases frame with
      | none => exact absurd rfl ha
      | some il =>
          simp only [State.apply, State.fbGet] at h
          split at h
          · split at h
            · rw [← Option.some.inj h] at hd
              cases hd
            · cases h
          · cases h
  | check =>
      simp only [State.apply] at h
      split at h
      · rw [← Option.some.inj h] at hd
        dsimp only at hd
        split at hd <;> cases hd
      · cases h
  | queueSend =>
      simp only [State.apply] at h
      split at h
      · split at h <;> rw [← Option.some.inj h] at hd <;> cases hd
      · cases h
  | captureReturn | deinit | init ok =>
      simp only [State.apply] at h
      split at h
      · rw [← Option.some.inj h] at hd
        cases hd
      · cases h
  | receive =>
      simp only [State.apply] at h
      split at h
      · next f rest hs hq =>
        rw [← Option.some.inj h] at hd
        refine ⟨hd, fun hdr => ?_⟩
        rw [hdr.1] at hq
        cases hq
      · rw [← Option.some.inj h] at hd ⊢
        exact ⟨hd, id⟩
      · cases h
  | convert jpeg ok | transmit | senderReturn =>
      -- the sender holds a frame, so the state is not drained
      simp only [State.apply] at h
      split at h
      · next hs =>
        rw [← Option.some.inj h] at hd
        refine ⟨hd, fun hdr => ?_⟩
        have hnone := hdr.2
        rw [hs] at hnone
        cases hnone
      · cases h

/-- From its third failed `fb_get` in a row to the teardown the capture
task has no frame queued or held, if and only if it had none then. -/
theorem throughout_no_live_frame {acts : List Action}
    (hrun : pipeline.run State.init acts = some s) :
    pipeline.Throughout NoLiveFrame State.init acts
      ↔ pipeline.Obeys FreeAtThird State.init acts := by
  refine Machine.throughout_iff_obeys (M := pipeline) (I := fun _ => True)
    trivial (fun h => nomatch h) (fun s a s' _ hP hg happ => ⟨trivial, ?_⟩)
    (fun s a s' _ _ hg happ hP => ?_) hrun
  · intro hd
    by_cases ha : a = .fbGet none
    · subst ha
      obtain ⟨hq, hs, hthird⟩ := State.fbGet_none happ
      obtain ⟨hq', hs'⟩ := hg (hthird.mp hd)
      exact ⟨by rw [hq, hq'], by rw [hs, hs']⟩
    · obtain ⟨hd', hdr⟩ := State.apply_deinit ha happ hd
      exact hdr (hP hd')
  · by_cases ha : a = .fbGet none
    · subst ha
      simp only [FreeAtThird, Classical.not_imp] at hg
      obtain ⟨hthird, hlive⟩ := hg
      obtain ⟨hq, hs, hdeinit⟩ := State.fbGet_none happ
      obtain ⟨hq', hs'⟩ := hP (hdeinit.mpr hthird)
      exact hlive ⟨by rw [← hq, hq'], by rw [← hs, hs']⟩
    · refine hg ?_
      cases a with
      | fbGet frame =>
          cases frame with
          | none => exact absurd rfl ha
          | some il => trivial
      | _ => trivial

/-- In every run, no frame is queued or held from a third failed `fb_get`
in a row on to the teardown if and only if every third failed `fb_get` in a
row finds none; and then each call of `esp_camera_deinit` finds none. -/
theorem no_live_frame_iff {acts : List Action}
    (hrun : pipeline.run State.init acts = some s) :
    (pipeline.Throughout NoLiveFrame State.init acts
        ↔ pipeline.Obeys FreeAtThird State.init acts)
      ∧ (pipeline.Obeys FreeAtThird State.init acts →
        ∀ pre post s₁, acts = pre ++ .deinit :: post →
          pipeline.run State.init pre = some s₁ → s₁.drained) := by
  have hiff := throughout_no_live_frame hrun
  refine ⟨hiff, ?_⟩
  rintro hfree pre post s₁ rfl hpre
  obtain ⟨s₂, hpre₂, hrest⟩ := Machine.run_append.mp hrun
  obtain rfl := Option.some.inj (hpre.symm.trans hpre₂)
  obtain ⟨s₃, happ, -⟩ := Machine.run_cons_inv hrest
  have happ : s₁.apply .deinit = some s₃ := happ
  refine (hiff.mpr hfree).after hpre ?_
  simp only [State.apply] at happ
  split at happ
  next hc => exact hc
  next => cases happ

/-- A slow sender: both buffers are captured and queued, one is received
and not yet sent, and `fb_get` times out three times. -/
def slowSender : List Action :=
  [.top true, .fbGet (some (0, 307200)), .check, .queueSend,
    .top true, .fbGet (some (1, 307200)), .check, .queueSend,
    .receive, .convert false true,
    .top true, .fbGet none, .top true, .fbGet none, .top true, .fbGet none]

/-- The exact condition on that run. -/
theorem no_live_frame_slowSender :
    ∃ s, pipeline.run State.init slowSender = some s
      ∧ (pipeline.Throughout NoLiveFrame State.init slowSender
        ↔ pipeline.Obeys FreeAtThird State.init slowSender) :=
  ⟨_, rfl, (no_live_frame_iff rfl).1⟩

/-- The capture task is about to tear the camera down with one frame
queued and the other in the sender's hands. -/
theorem teardown_under_live_frames :
    (pipeline.run State.init slowSender).map
        (fun s => (s.capture, s.queue, s.sender.held))
      = some (.deinit, [⟨0, 1⟩], some ⟨0, 0⟩) := by
  decide +kernel

end SitNChow.Frames
