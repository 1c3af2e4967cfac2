/-
Who owns a camera frame: the lease `esp_camera_fb_get` opens and
`esp_camera_fb_return` closes, across the capture task, the queue and
the sender.

# Places

While no camera is torn down, the frames the driver has handed out are
those in the capture task's hands, in the queue and in the sender's, each
in one of them: `Owned`. A step moves a frame from one place to the next
or gives it back.

# The history

`uses` lists what a run takes from the driver, reads and gives back.
Every task is past its last read of a frame when it gives it back, so
the history is a valid one of `Kit.Lease`.
-/
import SitNChow.Kit.Lease
import SitNChow.Frames

namespace SitNChow.Frames

open Kit Kit.Lease

variable {s s' : State} {a : Action} {f : Frame}

-- ============================================================== places

/-- The frame the capture task holds, between `esp_camera_fb_get` and
the queue or `esp_camera_fb_return`. -/
def CapturePc.held : CapturePc → Option Frame
  | .got f _ | .send f | .giveBack f => some f
  | .top | .get | .deinit | .init => none

/-- The frames in the tasks' hands and in the queue. -/
def State.holders (s : State) : List Frame :=
  s.capture.held.toList ++ s.queue ++ s.sender.held.toList

/-- In how many places a frame is. -/
def State.places (s : State) (f : Frame) : Nat :=
  s.capture.held.toList.count f + s.queue.count f
    + s.sender.held.toList.count f

/-- The driver's frames are in one place each, on a camera that is not
torn down. -/
structure Owned (s : State) : Prop where
  inited : s.camera.inited = true
  capture : s.capture ≠ .init
  holders : s.holders.Perm s.camera.out
  nodup : s.camera.out.Nodup

theorem owned_init : Owned State.init :=
  ⟨rfl, by simp [State.init], .refl _, .nil⟩

-- ============================================================= the uses

/-- What a step does with a frame of the driver: `fb_get` takes one, the
length check, the conversion and the sending of an unconverted frame
read one, and `fb_return` gives one back. -/
def State.use : Action → State → Option (Use Frame)
  | .fbGet (some (idx, _)), s => some (.take { gen := s.camera.gen, idx := idx })
  | .check, s =>
      match s.capture with
      | .got f _ => some (.read f)
      | _ => none
  | .captureReturn, s =>
      match s.capture with
      | .giveBack f => some (.give f)
      | _ => none
  | .convert _ _, s =>
      match s.sender with
      | .got f => some (.read f)
      | _ => none
  | .transmit, s =>
      match s.sender with
      | .transmit f false => some (.read f)
      | _ => none
  | .senderReturn, s =>
      match s.sender with
      | .giveBack f => some (.give f)
      | _ => none
  | _, _ => none

/-- The uses of a run, oldest first. -/
def uses : State → List Action → List (Use Frame)
  | _, [] => []
  | s, a :: rest =>
      (s.use a).toList ++
        match s.apply a with
        | some s' => uses s' rest
        | none => []

/-- A step that keeps the camera and the owners' frames keeps the
invariant, and may read any of them. -/
theorem Owned.keep (h : Owned s) (hcam : s'.camera = s.camera)
    (hcap : s'.capture ≠ .init) (hperm : s'.holders.Perm s.holders) :
    Owned s' := by
  refine ⟨by rw [hcam]; exact h.inited, hcap, ?_, by rw [hcam]; exact h.nodup⟩
  rw [hcam]
  exact hperm.trans h.holders

theorem Owned.capture_mem (h : Owned s) (hc : s.capture.held = some f) :
    f ∈ s.camera.out := by
  refine h.holders.mem_iff.mp ?_
  simp [State.holders, hc]

theorem Owned.sender_mem (h : Owned s) (hs : s.sender.held = some f) :
    f ∈ s.camera.out := by
  refine h.holders.mem_iff.mp ?_
  simp [State.holders, hs]

/-- Giving a frame back takes it from its holder and from what is
out. -/
theorem Owned.give (h : Owned s) (s' : State)
    (hcam : s'.camera = s.camera.fbReturn f) (hcap : s'.capture ≠ .init)
    (hperm : (f :: s'.holders).Perm s.holders) :
    Owned s' ∧ s'.camera.out = s.camera.out.erase f := by
  have hfb : s.camera.fbReturn f
      = { s.camera with out := s.camera.out.erase f } := if_pos h.inited
  rw [hfb] at hcam
  refine ⟨⟨by rw [hcam]; exact h.inited, hcap, ?_, ?_⟩, by rw [hcam]⟩
  · rw [hcam]
    exact (List.cons_perm_iff_perm_erase.mp (hperm.trans h.holders)).2
  · rw [hcam]
    exact h.nodup.erase f

/-- What a step without teardown does: it keeps the invariant, and what is
out afterwards is what its use leaves out. -/
def Accounts (a : Action) (s s' : State) : Prop :=
  Owned s'
    ∧ match s.use a with
      | some u => u.Ok s.camera.out ∧ s'.camera.out = u.after s.camera.out
      | none => s'.camera.out = s.camera.out

/-- The driver gives the capture task a frame that is not out, or
none. -/
theorem Owned.fbGet {frame} (h : Owned s)
    (happ : s.apply (.fbGet frame) = some s') :
    Accounts (.fbGet frame) s s' := by
  simp only [State.apply] at happ
  split at happ
  · next hc =>
    cases frame with
    | none =>
        simp only [State.fbGet] at happ
        split at happ
        · obtain rfl := Option.some.inj happ
          exact ⟨h.keep rfl (by simp)
            (by simp [State.holders, CapturePc.held, hc]), rfl⟩
        · obtain rfl := Option.some.inj happ
          exact ⟨h.keep rfl (by simp)
            (by simp [State.holders, CapturePc.held, hc]), rfl⟩
    | some il =>
        obtain ⟨idx, len⟩ := il
        simp only [State.fbGet] at happ
        split at happ
        · next hnew =>
          obtain rfl := Option.some.inj happ
          refine ⟨⟨h.inited, by simp, ?_, ?_⟩, hnew.2, rfl⟩
          · have hold := h.holders
            simp only [State.holders, hc] at hold
            exact hold.cons _
          · exact List.nodup_cons.mpr ⟨hnew.2, h.nodup⟩
        · cases happ
  · cases happ

/-- The length check reads the frame in the capture task's hands. -/
theorem Owned.check (h : Owned s) (happ : s.apply .check = some s') :
    Accounts .check s s' := by
  simp only [State.apply] at happ
  split at happ
  · next f len hc =>
    obtain rfl := Option.some.inj happ
    have hin := h.capture_mem (f := f) (by rw [hc]; rfl)
    refine ⟨h.keep rfl ?_ ?_, ?_⟩
    · dsimp only
      split <;> simp
    · dsimp only [State.holders]
      split <;> rw [hc] <;> exact .refl _
    · simp only [State.use, hc]
      exact ⟨hin, rfl⟩
  · cases happ

/-- A frame moves from the capture task's hands to the end of the queue,
or stays where it is. -/
theorem Owned.queueSend (h : Owned s)
    (happ : s.apply .queueSend = some s') : Accounts .queueSend s s' := by
  simp only [State.apply] at happ
  split at happ
  · next f hc =>
    split at happ
    · obtain rfl := Option.some.inj happ
      refine ⟨h.keep rfl (by simp) ?_, rfl⟩
      simp only [State.holders, hc, CapturePc.held, Option.toList_some,
        Option.toList_none, List.nil_append]
      exact (List.perm_append_singleton f s.queue).append_right _
    · obtain rfl := Option.some.inj happ
      exact ⟨h.keep rfl (by simp)
        (by simp [State.holders, CapturePc.held, hc]), rfl⟩
  · cases happ

/-- The capture task gives back the frame in its hands. -/
theorem Owned.captureReturn (h : Owned s)
    (happ : s.apply .captureReturn = some s') :
    Accounts .captureReturn s s' := by
  simp only [State.apply] at happ
  split at happ
  · next f hc =>
    obtain rfl := Option.some.inj happ
    have hin := h.capture_mem (f := f) (by rw [hc]; rfl)
    obtain ⟨hown, hout⟩ := h.give
      { s with camera := s.camera.fbReturn f, capture := .top } rfl
      (by simp) (by simp [State.holders, CapturePc.held, hc])
    simp only [Accounts, State.use, hc]
    exact ⟨hown, hin, hout⟩
  · cases happ

/-- A frame moves from the head of the queue to the sender's hands. -/
theorem Owned.receive (h : Owned s) (happ : s.apply .receive = some s') :
    Accounts .receive s s' := by
  simp only [State.apply] at happ
  split at happ
  · next f rest hs hq =>
    obtain rfl := Option.some.inj happ
    refine ⟨h.keep rfl h.capture ?_, rfl⟩
    simp only [State.holders, hs, hq, SenderPc.held, Option.toList_some,
      Option.toList_none, List.append_nil, List.append_assoc]
    exact (List.perm_append_singleton f rest).append_left _
  · obtain rfl := Option.some.inj happ
    exact ⟨h, rfl⟩
  · cases happ

/-- The conversion reads the frame in the sender's hands. -/
theorem Owned.convert {jpeg ok : Bool} (h : Owned s)
    (happ : s.apply (.convert jpeg ok) = some s') :
    Accounts (.convert jpeg ok) s s' := by
  simp only [State.apply] at happ
  split at happ
  · next f hs =>
    obtain rfl := Option.some.inj happ
    have hin := h.sender_mem (f := f) (by rw [hs]; rfl)
    refine ⟨h.keep rfl h.capture ?_, ?_⟩
    · cases jpeg <;> cases ok <;> simp [State.holders, SenderPc.held, hs]
    · simp only [State.use, hs]
      exact ⟨hin, rfl⟩
  · cases happ

/-- The sending of an unconverted frame reads it. -/
theorem Owned.transmit (h : Owned s) (happ : s.apply .transmit = some s') :
    Accounts .transmit s s' := by
  simp only [State.apply] at happ
  split at happ
  · next f converted hs =>
    obtain rfl := Option.some.inj happ
    have hin := h.sender_mem (f := f) (by rw [hs]; rfl)
    refine ⟨h.keep rfl h.capture
      (by simp [State.holders, SenderPc.held, hs]), ?_⟩
    cases converted <;> simp only [State.use, hs]
    exact ⟨hin, rfl⟩
  · cases happ

/-- The sender gives back the frame in its hands. -/
theorem Owned.senderReturn (h : Owned s)
    (happ : s.apply .senderReturn = some s') :
    Accounts .senderReturn s s' := by
  simp only [State.apply] at happ
  split at happ
  · next f hs =>
    obtain rfl := Option.some.inj happ
    have hin := h.sender_mem (f := f) (by rw [hs]; rfl)
    obtain ⟨hown, hout⟩ := h.give
      { s with camera := s.camera.fbReturn f, sender := .receive } rfl
      h.capture (by
        simp only [State.holders, hs, SenderPc.held, Option.toList_some,
          Option.toList_none, List.append_nil]
        exact (List.perm_append_singleton f _).symm)
    simp only [Accounts, State.use, hs]
    exact ⟨hown, hin, hout⟩
  · cases happ

/-- Every step but a teardown accounts for its frames. -/
theorem Owned.step (h : Owned s) (ha : a ≠ .deinit)
    (happ : s.apply a = some s') : Accounts a s s' := by
  cases a with
  | deinit => exact absurd rfl ha
  | top streaming =>
      simp only [State.apply] at happ
      split at happ
      · next hc =>
        obtain rfl := Option.some.inj happ
        refine ⟨h.keep rfl ?_ ?_, rfl⟩
        · cases streaming <;> simp
        · cases streaming <;> simp [State.holders, CapturePc.held, hc]
      · cases happ
  | fbGet frame => exact h.fbGet happ
  | check => exact h.check happ
  | queueSend => exact h.queueSend happ
  | captureReturn => exact h.captureReturn happ
  | init ok =>
      simp only [State.apply] at happ
      split at happ
      · next hc => exact absurd hc h.capture
      · cases happ
  | receive => exact h.receive happ
  | convert jpeg ok => exact h.convert happ
  | transmit => exact h.transmit happ
  | senderReturn => exact h.senderReturn happ

/-- A run without teardown keeps the invariant, and its uses are a valid
history that leaves out what the driver has out. -/
theorem Owned.run {acts : List Action} (h : Owned s)
    (hrun : pipeline.run s acts = some s') (hno : ∀ a ∈ acts, a ≠ .deinit) :
    Owned s' ∧ Valid s.camera.out (uses s acts)
      ∧ outAfter s.camera.out (uses s acts) = s'.camera.out := by
  induction acts generalizing s with
  | nil =>
      obtain rfl := Option.some.inj hrun
      exact ⟨h, trivial, rfl⟩
  | cons a rest ih =>
      obtain ⟨ha, hrest⟩ := List.forall_mem_cons.mp hno
      obtain ⟨s₁, happ, hrun₁⟩ := Machine.run_cons_inv hrun
      have happ : s.apply a = some s₁ := happ
      obtain ⟨hown, huse⟩ := h.step ha happ
      obtain ⟨hown', hvalid, hout⟩ := ih hown hrun₁ hrest
      refine ⟨hown', ?_⟩
      unfold uses
      rw [happ]
      cases hu : s.use a with
      | none =>
          rw [hu] at huse
          rw [show s₁.camera.out = s.camera.out from huse] at hvalid hout
          exact ⟨hvalid, hout⟩
      | some u =>
          rw [hu] at huse
          obtain ⟨hok, hafter⟩ := huse
          rw [hafter] at hvalid hout
          exact ⟨⟨hok, hvalid⟩, hout⟩

/-- In one place while it is out, in none when it is not. -/
theorem Owned.places (h : Owned s) (f : Frame) :
    s.places f = if f ∈ s.camera.out then 1 else 0 := by
  have hcount := h.holders.count_eq f
  simp only [State.holders, List.count_append] at hcount
  rw [State.places, hcount]
  split
  · next hin => exact List.count_eq_one_of_mem h.nodup hin
  · next hout => exact List.count_eq_zero.mpr hout

/-- In every run without a camera re-initialisation, the driver has out what
was got and not yet returned; such a frame is in exactly one place, and any
other in none; what is read or returned is out; and nothing is read or
returned after its return unless it was got again in between. -/
theorem frames_returned_once {acts : List Action}
    (hrun : pipeline.run State.init acts = some s)
    (hno : ∀ a ∈ acts, a ≠ .deinit) :
    s.camera.out = outAfter [] (uses State.init acts)
      ∧ (∀ f, s.places f
        = if f ∈ outAfter [] (uses State.init acts) then 1 else 0)
      ∧ Valid [] (uses State.init acts)
      ∧ ∀ pre f mid u post,
          uses State.init acts = pre ++ .give f :: (mid ++ u :: post) →
          u = .read f ∨ u = .give f → .take f ∈ mid := by
  obtain ⟨hown, hvalid, hout⟩ := owned_init.run hrun hno
  have hvalid : Valid [] (uses State.init acts) := hvalid
  refine ⟨hout.symm, fun f => ?_, hvalid, fun pre f mid u post hsplit hu => ?_⟩
  · rw [hown.places, ← hout]
    rfl
  · rw [hsplit] at hvalid
    exact hvalid.taken_between .nil hu

/-- The slow sender, got as far as returning its first frame. -/
def oneSent : List Action :=
  slowSender.take 10 ++ [.transmit, .senderReturn]

/-- The rule on that run: the frame sent is in no place any more. -/
theorem frames_returned_once_sent :
    ∃ s, pipeline.run State.init oneSent = some s
      ∧ s.places ⟨0, 0⟩ = 0 ∧ s.places ⟨0, 1⟩ = 1 := by
  have hrun : pipeline.run State.init oneSent = some _ := rfl
  have h := (frames_returned_once hrun (by decide)).2.1
  exact ⟨_, rfl, h ⟨0, 0⟩, h ⟨0, 1⟩⟩

end SitNChow.Frames
