/-
What the application gets from the camera driver.

A frame that it has is whole, and stays as it is until it is given back
(`held_frame_kept`). Its takings and givings are a history of leases
(`driver_uses_valid`), which is what `Frames` assumes of the driver. And
no frame is lost: while one is left, an idle driver starts again
(`capture_resumes`).
-/
import SitNChow.Camera.Owners
import SitNChow.Kit.Lease

namespace SitNChow.Camera

open Kit Kit.Pool Kit.Lease

variable {c : Config} {s s' : State} {f : Nat}

-- ======================================= what the application relies on

/-- The copy of a half-buffer touches only the frame that is filled. -/
theorem State.onEof_frame (half : List UInt8)
    (hne : s.state = .readBuf → f ≠ s.framePos) :
    (s.onEof c half).held = s.held ∧ (s.onEof c half).fb f = s.fb f := by
  rw [State.onEof]
  split
  next => exact ⟨rfl, rfl⟩
  next hstate =>
    split
    next => exact ⟨rfl, rfl⟩
    next =>
      dsimp only
      split
      · exact ⟨rfl, Function.update_of_ne (hne hstate) _ _⟩
      · exact ⟨rfl, Function.update_of_ne (hne hstate) _ _⟩

/-- So does the end of a frame. -/
theorem State.onVsync_frame (half : List UInt8)
    (hne : s.state = .readBuf → f ≠ s.framePos) :
    (s.onVsync c half).held = s.held ∧ (s.onVsync c half).fb f = s.fb f := by
  rw [State.onVsync]
  split
  next => exact ⟨rfl, rfl⟩
  next hstate =>
    split
    next =>
      dsimp only
      generalize (if c.jpegMode = true
        ∧ (s.fb s.framePos).length + c.dmaHalfBufferSize ≤ c.fbSize
        then s.fb s.framePos ++ half else s.fb s.framePos) = buf
      split
      · exact ⟨rfl, Function.update_of_ne (hne hstate) _ _⟩
      · exact ⟨rfl, Function.update_of_ne (hne hstate) _ _⟩
    next => exact ⟨rfl, rfl⟩

/-- `cam_task` by itself changes no frame but one that it starts to
fill. -/
theorem State.task_frame (happ : s.task c = some s')
    (hne : ∀ x, s.en x = true → (x < c.frameCnt ∨ x = s.framePos) → f ≠ x) :
    s'.held = s.held ∧ s'.fb f = s.fb f := by
  rw [State.task] at happ
  split at happ
  next => cases happ
  next => split at happ <;> cases happ <;> exact ⟨rfl, rfl⟩
  next => split at happ <;> cases happ <;> exact ⟨rfl, rfl⟩
  next => split at happ <;> cases happ <;> exact ⟨rfl, rfl⟩
  next =>
    cases happ
    exact ⟨rfl, rfl⟩
  next state hpc =>
    split at happ
    next hen =>
      cases happ
      exact ⟨rfl, Function.update_of_ne (hne _ hen (.inr rfl)) _ _⟩
    next =>
      cases happ
      exact ⟨rfl, rfl⟩
  next state x hpc =>
    split at happ
    next hx =>
      split at happ
      next hen =>
        cases happ
        exact ⟨rfl, Function.update_of_ne (hne x hen (.inl hx)) _ _⟩
      next =>
        cases happ
        exact ⟨rfl, rfl⟩
    next =>
      cases happ
      exact ⟨rfl, rfl⟩

/-- The check of one frame leaves another one with the application. -/
theorem State.check_frame {g : Nat} (hf : f ∈ s.held) (hne : f ≠ g) :
    f ∈ (s.check c g).held ∧ (s.check c g).fb f = s.fb f := by
  rw [State.check]
  dsimp only
  split
  next =>
    split
    next => exact ⟨List.mem_cons_of_mem _ hf, Function.update_of_ne hne _ _⟩
    next => exact ⟨hf, rfl⟩
  next => exact ⟨List.mem_cons_of_mem _ hf, rfl⟩

/-- A step leaves a frame of the application alone, unless it gives it
back. -/
theorem Inv.held_kept {a : Action} (h : Inv c s) (hf : f ∈ s.held)
    (ha : a ≠ .give f) (happ : State.apply c a s = some s') :
    f ∈ s'.held ∧ s'.fb f = s.fb f := by
  have hout := mem_out_of_held hf
  have hread : s.pc = .receive → s.state = .readBuf → f ≠ s.framePos := by
    rintro hpc hstate rfl
    exact h.reading_not_out hpc hstate hout
  cases a with
  | eof half =>
      rw [State.apply] at happ
      split at happ
      next hok =>
        obtain rfl := Option.some.inj happ
        obtain ⟨hheld, hfb⟩ := State.onEof_frame (c := c) half (hread hok.1)
        exact ⟨hheld ▸ hf, hfb⟩
      next => cases happ
  | vsync half =>
      rw [State.apply] at happ
      split at happ
      next hok =>
        obtain rfl := Option.some.inj happ
        obtain ⟨hheld, hfb⟩ := State.onVsync_frame (c := c) half (hread hok.1)
        exact ⟨hheld ▸ hf, hfb⟩
      next => cases happ
  | task =>
      have hstart : ∀ x, s.en x = true →
          (x < c.frameCnt ∨ x = s.framePos) → f ≠ x := by
        rintro x hen hx rfl
        have hlt : f < c.frameCnt := by
          rcases hx with hx | rfl
          · exact hx
          · exact h.pos
        exact (h.ledger.free_iff f hlt).mp hen hout
      obtain ⟨hheld, hfb⟩ := State.task_frame happ hstart
      exact ⟨hheld ▸ hf, hfb⟩
  | overflow =>
      obtain rfl := Option.some.inj happ
      exact ⟨hf, rfl⟩
  | take =>
      rw [State.apply] at happ
      split at happ
      next => cases happ
      next =>
        obtain rfl := Option.some.inj happ
        exact ⟨hf, rfl⟩
  | check g =>
      rw [State.apply] at happ
      split at happ
      next hg =>
        obtain rfl := Option.some.inj happ
        refine State.check_frame hf ?_
        rintro rfl
        have hnodup := h.ledger.nodup
        rw [State.out, List.nodup_append'] at hnodup
        exact hnodup.2.2 (List.mem_append_right _ hg) hf
      next => cases happ
  | give g =>
      rw [State.apply] at happ
      split at happ
      next =>
        obtain rfl := Option.some.inj happ
        have hne : f ≠ g := by
          rintro rfl
          exact ha rfl
        exact ⟨(List.mem_erase_of_ne hne).mpr hf, rfl⟩
      next => cases happ

/-- A frame that the application has is whole, and stays as it is until it
is given back, whatever the driver does meanwhile. -/
theorem held_frame_kept {acts : List Action} (hr : (machine c).Reachable s)
    (hf : f ∈ s.held) (hacts : ∀ a ∈ acts, a ≠ .give f)
    (hrun : (machine c).run s acts = some s') :
    f ∈ s'.held ∧ s'.fb f = s.fb f ∧ c.Whole (s'.fb f)
      ∧ c.Closed (s'.fb f) := by
  have h := inv_reachable hr
  clear hr
  induction acts generalizing s with
  | nil =>
      obtain rfl := Option.some.inj hrun
      exact ⟨hf, rfl, h.whole f (mem_out_of_held hf), h.closed f hf⟩
  | cons a acts ih =>
      obtain ⟨s₁, happ, hrun⟩ := Machine.run_cons_inv hrun
      obtain ⟨hf₁, hfb⟩ := h.held_kept hf (hacts a List.mem_cons_self) happ
      obtain ⟨hf', hfb', hwhole⟩ := ih hf₁
        (fun b hb => hacts b (List.mem_cons_of_mem a hb)) hrun (h.step happ)
      exact ⟨hf', hfb'.trans hfb, hwhole⟩

/-- A driver with two small frame buffers. -/
def twoFrames : Config := ⟨2, 2, false, 4, 2, by decide⟩

/-- A frame is filled and handed out. -/
def firstFrame : List Action :=
  [.vsync [0, 0], .task, .eof [1, 2], .eof [3, 4], .vsync [0, 0], .task, .task,
    .task, .task, .take, .check 0]

/-- The application has the frame. -/
def afterFirst : State :=
  ((machine twoFrames).run State.init firstFrame).get rfl

/-- The driver fills the other one, until the event queue is full. -/
def fillingOther : State :=
  ((machine twoFrames).run afterFirst [.eof [5, 6], .overflow]).get rfl

/-- The application keeps its frame while the other one is filled and an
overflow stops that. -/
theorem held_frame_kept_filling :
    0 ∈ fillingOther.held ∧ fillingOther.fb 0 = afterFirst.fb 0
      ∧ twoFrames.Whole (fillingOther.fb 0)
      ∧ twoFrames.Closed (fillingOther.fb 0) := by
  have hrun₁ : (machine twoFrames).run State.init firstFrame
      = some afterFirst := (Option.some_get _).symm
  have hrun₂ : (machine twoFrames).run afterFirst [.eof [5, 6], .overflow]
      = some fillingOther := (Option.some_get _).symm
  exact held_frame_kept (Machine.reachable_of_run hrun₁)
    (show 0 ∈ [0] by decide) (by simp) hrun₂

/-- What the application does with a frame of the driver: `cam_take`
returns one, if it has an end marker in JPEG mode, and `cam_give` gives
one back. -/
def State.use (c : Config) : Action → State → Option (Use Nat)
  | .check f, s =>
      if c.jpegMode = true ∧ camVerifyJpegEoi (s.fb f) = none then none
      else some (.take f)
  | .give f, _ => some (.give f)
  | _, _ => none

/-- The uses of a run, oldest first. -/
def uses (c : Config) : State → List Action → List (Use Nat)
  | _, [] => []
  | s, a :: acts =>
      (s.use c a).toList ++
        match s.apply c a with
        | some s' => uses c s' acts
        | none => []

/-- A step takes only a frame that the application does not have, gives
back one that it has, and otherwise leaves what it has. -/
theorem Inv.use {a : Action} (h : Inv c s)
    (happ : State.apply c a s = some s') :
    Valid s.held (s.use c a).toList
      ∧ s'.held = outAfter s.held (s.use c a).toList := by
  cases a with
  | eof half =>
      rw [State.apply] at happ
      split at happ
      next hok =>
        obtain rfl := Option.some.inj happ
        refine ⟨trivial, (State.onEof_frame (c := c) (f := s.framePos + 1) half
          fun _ => Nat.succ_ne_self _).1⟩
      next => cases happ
  | vsync half =>
      rw [State.apply] at happ
      split at happ
      next hok =>
        obtain rfl := Option.some.inj happ
        refine ⟨trivial, (State.onVsync_frame (c := c) (f := s.framePos + 1)
          half fun _ => Nat.succ_ne_self _).1⟩
      next => cases happ
  | task =>
      refine ⟨trivial, (State.task_frame (f := s.framePos + c.frameCnt + 1)
        happ fun x _ hx => ?_).1⟩
      omega
  | overflow =>
      obtain rfl := Option.some.inj happ
      exact ⟨trivial, rfl⟩
  | take =>
      rw [State.apply] at happ
      split at happ
      next => cases happ
      next =>
        obtain rfl := Option.some.inj happ
        exact ⟨trivial, rfl⟩
  | check f =>
      rw [State.apply] at happ
      split at happ
      next hf =>
        obtain rfl := Option.some.inj happ
        have hnot : f ∉ s.held := by
          have hnodup := h.ledger.nodup
          rw [State.out, List.nodup_append'] at hnodup
          exact fun hm => hnodup.2.2 (List.mem_append_right _ hf) hm
        rw [State.use, State.check]
        dsimp only
        by_cases hjpeg : c.jpegMode = true
        · rw [if_pos hjpeg]
          cases hend : camVerifyJpegEoi (s.fb f) with
          | none =>
              rw [if_pos ⟨hjpeg, rfl⟩]
              exact ⟨trivial, rfl⟩
          | some offsetE =>
              rw [if_neg (fun hno => by cases hno.2)]
              exact ⟨⟨hnot, trivial⟩, rfl⟩
        · rw [if_neg hjpeg, if_neg (fun hno => hjpeg hno.1)]
          exact ⟨⟨hnot, trivial⟩, rfl⟩
      next => cases happ
  | give f =>
      rw [State.apply] at happ
      split at happ
      next hf =>
        obtain rfl := Option.some.inj happ
        exact ⟨⟨hf, trivial⟩, rfl⟩
      next => cases happ

/-- From any state with the invariant, the leases of a run are valid behind
those before. -/
theorem Inv.uses_valid {acts : List Action} (h : Inv c s)
    (hrun : (machine c).run s acts = some s') :
    Valid s.held (uses c s acts) ∧ s'.held = outAfter s.held (uses c s acts) := by
  induction acts generalizing s with
  | nil =>
      obtain rfl := Option.some.inj hrun
      exact ⟨trivial, rfl⟩
  | cons a acts ih =>
      obtain ⟨s₁, happ, hrun⟩ := Machine.run_cons_inv hrun
      have happ' : State.apply c a s = some s₁ := happ
      obtain ⟨huse, hheld⟩ := h.use happ'
      obtain ⟨hrest, hend⟩ := ih (h.step happ') hrun
      rw [uses, happ']
      dsimp only
      rw [hheld] at hrest hend
      refine ⟨valid_append.mpr ⟨huse, hrest⟩, ?_⟩
      rw [hend, outAfter, outAfter, outAfter, List.foldl_append]

/-- What the application gets and gives back, in any run of the driver and
the application, is a history of leases: the driver hands out no frame
again that was not given back. -/
theorem driver_uses_valid {acts : List Action}
    (hrun : (machine c).run (machine c).init acts = some s) :
    Valid [] (uses c (machine c).init acts) :=
  (inv_init.uses_valid hrun).1

/-- The first frame is taken and given back. -/
theorem driver_uses_valid_firstFrame :
    Valid [] (uses twoFrames State.init (firstFrame ++ [.give 0])) := by
  have hrun : (machine twoFrames).run State.init (firstFrame ++ [.give 0])
      = some (((machine twoFrames).run State.init
        (firstFrame ++ [.give 0])).get rfl) := (Option.some_get _).symm
  exact driver_uses_valid hrun

-- ============================================================ no frame lost

/-- `cam_task` waits for events and fills a frame, of which nothing has
come yet. -/
def State.Filling (s : State) : Prop :=
  s.pc = .receive ∧ s.state = .readBuf ∧ s.cnt = 0 ∧ s.fb s.framePos = []

/-- `cam_task` by its own steps comes to a state like `P`. -/
def Ends (c : Config) (P : State → Prop) (s : State) : Prop :=
  ∃ acts s', (∀ a ∈ acts, a = Action.task) ∧ (machine c).run s acts = some s'
    ∧ P s'

variable {P : State → Prop}

/-- It has come there already. -/
theorem Ends.here (h : P s) : Ends c P s :=
  ⟨[], s, fun _ ha => absurd ha List.not_mem_nil, rfl, h⟩

/-- One step more. -/
theorem Ends.task {t : State} (happ : s.task c = some t) (h : Ends c P t) :
    Ends c P s := by
  obtain ⟨acts, s'', hacts, hrun, hP⟩ := h
  refine ⟨.task :: acts, s'', fun a ha => ?_, (Machine.run_cons happ).trans hrun, hP⟩
  rcases List.mem_cons.mp ha with rfl | ha
  · rfl
  · exact hacts a ha

/-- It comes to whatever follows from where it comes. -/
theorem Ends.imp {Q : State → Prop} (h : Ends c P s) (hPQ : ∀ s', P s' → Q s') :
    Ends c Q s := by
  obtain ⟨acts, s', hacts, hrun, hP⟩ := h
  exact ⟨acts, s', hacts, hrun, hPQ s' hP⟩

/-- A frame that is started is filled, if nothing has made the driver
idle meanwhile. -/
theorem State.started_filling {state : CamState} {x : Nat}
    (hstate : state = .readBuf → s.state = .readBuf) :
    (s.started state x).Filling := by
  refine ⟨rfl, ?_, rfl, Function.update_self _ _ _⟩
  cases state with
  | idle => rfl
  | readBuf => exact hstate rfl

/-- From the position where it stands, the loop of `cam_get_next_frame`
finds a frame if the driver has one behind it. -/
theorem scan_ends {state : CamState} {x : Nat} (hpc : s.pc = .scan state x)
    (hstate : state = .readBuf → s.state = .readBuf)
    (hbefore : ∀ y < x, s.en y ≠ true) :
    Ends c (fun s' => s'.en = s.en
      ∧ (s'.Filling ∨ s'.pc = .receive ∧ ∀ y < c.frameCnt, s.en y ≠ true)) s := by
  induction hk : c.frameCnt - x generalizing s x with
  | zero =>
      -- The loop is over.
      have happ : s.task c = some (s.notStarted state) := by
        rw [State.task, hpc]
        dsimp only
        rw [if_neg (by omega)]
      exact .task happ (.here ⟨rfl, .inr ⟨rfl, fun y hy => hbefore y (by omega)⟩⟩)
  | succ k ih =>
      have hx : x < c.frameCnt := by omega
      by_cases hen : s.en x = true
      · have happ : s.task c = some (s.started state x) := by
          rw [State.task, hpc]
          dsimp only
          rw [if_pos hx, if_pos hen]
        exact .task happ (.here ⟨rfl, .inl (State.started_filling hstate)⟩)
      · have happ : s.task c = some { s with pc := .scan state (x + 1) } := by
          rw [State.task, hpc]
          dsimp only
          rw [if_pos hx, if_neg hen]
        refine .task happ (ih (s := { s with pc := .scan state (x + 1) }) rfl hstate
          (fun y hy => ?_) (by omega))
        rcases Nat.lt_succ_iff_lt_or_eq.mp hy with hlt | rfl
        · exact hbefore y hlt
        · exact hen

/-- `cam_get_next_frame` looks at the current frame first. -/
theorem next_ends {state : CamState} (hpc : s.pc = .next state)
    (hstate : state = .readBuf → s.state = .readBuf) :
    Ends c (fun s' => s'.en = s.en
      ∧ (s'.Filling ∨ s'.pc = .receive ∧ ∀ y < c.frameCnt, s.en y ≠ true)) s := by
  by_cases hen : s.en s.framePos = true
  · have happ : s.task c = some (s.started state s.framePos) := by
      rw [State.task, hpc]
      exact if_pos hen
    exact .task happ (.here ⟨rfl, .inl (State.started_filling hstate)⟩)
  · have happ : s.task c = some { s with pc := .scan state 0 } := by
      rw [State.task, hpc]
      exact if_neg hen
    exact .task happ (scan_ends (s := { s with pc := .scan state 0 }) rfl hstate
      fun y hy => absurd hy (Nat.not_lt_zero y))

variable (c) in
/-- `cam_task` fills the next frame, or has found none. -/
def State.WentOn (s : State) : Prop :=
  s.Filling ∨ s.pc = .receive ∧ ∀ f < c.frameCnt, s.en f ≠ true

/-- From its look for the next frame `cam_task` goes on. -/
theorem next_goes (hpc : s.pc = .next .readBuf) (hstate : s.state = .readBuf) :
    Ends c (State.WentOn c) s := by
  refine (next_ends hpc fun _ => hstate).imp ?_
  rintro s' ⟨hen, hend⟩
  rw [State.WentOn, hen]
  exact hend

/-- A frame off the queue goes back to the driver. -/
theorem give_goes {fb2 : Nat} (hpc : s.pc = .give fb2)
    (hstate : s.state = .readBuf) : Ends c (State.WentOn c) s := by
  refine .task (t := { s with
    en := Function.update s.en fb2 true, pc := .next .readBuf }) ?_
    (next_goes rfl hstate)
  rw [State.task, hpc]

/-- So it does from its second try to send a frame. -/
theorem resend_goes {fb2 : Nat} (hpc : s.pc = .resend fb2)
    (hstate : s.state = .readBuf) : Ends c (State.WentOn c) s := by
  by_cases hroom : s.queue.length < c.queueLen
  · refine .task (t := { s with
      queue := s.queue ++ [s.framePos], pc := .give fb2 }) ?_ (give_goes rfl hstate)
    rw [State.task, hpc]
    exact if_pos hroom
  · refine .task (t := { s with
      en := Function.update s.en s.framePos true, pc := .give fb2 }) ?_
      (give_goes rfl hstate)
    rw [State.task, hpc]
    exact if_neg hroom

/-- So it does from the oldest frame of a full queue. -/
theorem pop_goes (hpc : s.pc = .pop) (hstate : s.state = .readBuf) :
    Ends c (State.WentOn c) s := by
  cases hqueue : s.queue with
  | nil =>
      refine .task (t := { s with
        en := Function.update s.en s.framePos true, pc := .next .readBuf }) ?_
        (next_goes rfl hstate)
      rw [State.task, hpc, hqueue]
  | cons fb2 queue =>
      refine .task (t := { s with queue := queue, pc := .resend fb2 }) ?_
        (resend_goes rfl hstate)
      rw [State.task, hpc, hqueue]

/-- A frame that has come to its end gets into the queue, or back to the
driver. -/
theorem send_goes (hpc : s.pc = .send) (hstate : s.state = .readBuf) :
    Ends c (State.WentOn c) s := by
  by_cases hroom : s.queue.length < c.queueLen
  · refine .task (t := { s with
      queue := s.queue ++ [s.framePos], pc := .next .readBuf }) ?_
      (next_goes rfl hstate)
    rw [State.task, hpc]
    exact if_pos hroom
  · refine .task (t := { s with pc := .pop }) ?_ (pop_goes rfl hstate)
    rw [State.task, hpc]
    exact if_neg hroom

/-- The end of a frame that is read leads to the queue or to the next
frame. -/
theorem State.onVsync_read (half : List UInt8) (hstate : s.state = .readBuf) :
    ((s.onVsync c half).pc = .send ∨ (s.onVsync c half).pc = .next .readBuf)
      ∧ (s.onVsync c half).state = .readBuf := by
  rw [State.onVsync, hstate]
  dsimp only
  split
  next =>
    generalize (if c.jpegMode = true
      ∧ (s.fb s.framePos).length + c.dmaHalfBufferSize ≤ c.fbSize
      then s.fb s.framePos ++ half else s.fb s.framePos) = buf
    split
    · exact ⟨.inl rfl, rfl⟩
    · exact ⟨.inr rfl, rfl⟩
  next => exact ⟨.inr rfl, rfl⟩

/-- Whoever finds no frame that is the driver's has them all out. -/
theorem Inv.went_on (h : Inv c s) (hon : s.WentOn c) :
    s.Filling ∨ s.pc = .receive ∧ ∀ f < c.frameCnt, f ∈ s.out := by
  rcases hon with hfill | ⟨hpc, hnone⟩
  · exact .inl hfill
  · refine .inr ⟨hpc, fun f hf => Decidable.by_contra fun hout => ?_⟩
    exact hnone f hf ((h.ledger.free_iff f hf).mpr hout)

/-- No frame is lost: in every state exactly those are disabled that are
queued, at the application or in `cam_task`'s hands, each once. And after
a VSYNC event `cam_task` by its own steps comes to fill a frame from its
beginning, or all frames are out; it does fill one if the driver was idle
and had one left. -/
theorem capture_resumes (hr : (machine c).Reachable s) :
    s.out.Nodup ∧ (∀ f < c.frameCnt, s.en f = true ↔ f ∉ s.out)
      ∧ (s.pc = .receive →
        ∀ half : List UInt8, half.length = c.dmaHalfBufferSize →
          ∃ acts s', (∀ a ∈ acts, a = .task)
            ∧ (machine c).run s (.vsync half :: acts) = some s'
            ∧ (s'.Filling ∨ s'.pc = .receive ∧ ∀ f < c.frameCnt, f ∈ s'.out)
            ∧ (s.state = .idle → (∃ f < c.frameCnt, f ∉ s.out) → s'.Filling)) := by
  have h := inv_reachable hr
  refine ⟨h.ledger.nodup, h.ledger.free_iff, fun hpc half hhalf => ?_⟩
  have hvsync : (machine c).apply (.vsync half) s = some (s.onVsync c half) :=
    if_pos ⟨hpc, hhalf⟩
  have hreached : ∀ acts s', (machine c).run s (.vsync half :: acts) = some s' →
      Inv c s' := fun acts s' hrun =>
    inv_reachable (hr.run_of_obeys (Machine.obeys_true _ _) hrun)
  cases hstate : s.state with
  | idle =>
      have honVsync : s.onVsync c half = { s with pc := .next .idle } := by
        rw [State.onVsync, hstate]
      rw [honVsync] at hvsync
      obtain ⟨acts, s', hacts, hrun, hen, hend⟩ :=
        next_ends (c := c) (s := { s with pc := .next .idle }) rfl
          fun hno => by cases hno
      have hrun' := (Machine.run_cons hvsync).trans hrun
      refine ⟨acts, s', hacts, hrun', ?_, ?_⟩
      · refine (hreached acts s' hrun').went_on ?_
        rw [State.WentOn, hen]
        exact hend
      · rintro - ⟨f, hf, hout⟩
        rcases hend with hfill | ⟨-, hnone⟩
        · exact hfill
        · exact absurd ((h.ledger.free_iff f hf).mpr hout) (hnone f hf)
  | readBuf =>
      obtain ⟨hpc', hread⟩ := State.onVsync_read (c := c) half hstate
      have hgoes : Ends c (State.WentOn c) (s.onVsync c half) := by
        rcases hpc' with hsend | hnext
        · exact send_goes hsend hread
        · exact next_goes hnext hread
      obtain ⟨acts, s', hacts, hrun, hon⟩ := hgoes
      have hrun' := (Machine.run_cons hvsync).trans hrun
      exact ⟨acts, s', hacts, hrun', (hreached acts s' hrun').went_on hon,
        fun hidle => by cases hidle⟩

/-- With a frame at the application and the event queue full, the other
frame is filled again. -/
theorem capture_resumes_filling :
    fillingOther.held = [0] ∧ fillingOther.state = .idle
      ∧ ∃ acts s', (∀ a ∈ acts, a = .task)
        ∧ (machine twoFrames).run fillingOther (.vsync [0, 0] :: acts) = some s'
        ∧ s'.Filling := by
  have hrun₁ : (machine twoFrames).run State.init firstFrame
      = some afterFirst := (Option.some_get _).symm
  have hrun₂ : (machine twoFrames).run afterFirst [.eof [5, 6], .overflow]
      = some fillingOther := (Option.some_get _).symm
  have hr : (machine twoFrames).Reachable fillingOther :=
    Machine.reachable_of_run (Machine.run_append.mpr ⟨_, hrun₁, hrun₂⟩)
  obtain ⟨acts, s', hacts, hrun, -, hfill⟩ :=
    (capture_resumes hr).2.2 rfl [0, 0] rfl
  exact ⟨rfl, rfl, acts, s', hacts, hrun,
    hfill rfl ⟨1, by decide, show 1 ∉ [0] by decide⟩⟩

end SitNChow.Camera
