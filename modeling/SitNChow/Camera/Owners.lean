/-
Who has a frame buffer of the camera driver, and what is in it.

The driver's flags and the places outside agree in every state (`Inv`), so
no frame is filled while it is out (`Inv.reading_not_out`), and none is
lost. Every step keeps it: an event or an access of `cam_task`, and a
step of the application.
-/
import SitNChow.Camera.Driver

namespace SitNChow.Camera

open Kit Kit.Pool

-- ========================================================== the markers

/-- A start marker at place 0 is the beginning of the buffer. -/
theorem soi_prefix {buf : List UInt8} (h : camVerifyJpegSoi buf = some 0) :
    jpegSoi <+: buf := by
  cases buf with
  | nil => cases h
  | cons b buf =>
      rw [camVerifyJpegSoi] at h
      split at h
      next htake =>
        rw [← htake]
        exact List.take_prefix 3 _
      next =>
        cases hrest : camVerifyJpegSoi buf with
        | none => rw [hrest] at h; cases h
        | some i => rw [hrest] at h; cases h

/-- Where the search finds an end marker, there is one. -/
theorem eoiFrom_some {buf : List UInt8} {n i : Nat}
    (h : eoiFrom buf n = some i) : (buf.drop i).take 2 = jpegEoi := by
  induction n with
  | zero =>
      rw [eoiFrom] at h
      split at h
      next htake =>
        obtain rfl := Option.some.inj h
        exact htake
      next => cases h
  | succ n ih =>
      rw [eoiFrom] at h
      split at h
      next htake =>
        obtain rfl := Option.some.inj h
        exact htake
      next => exact ih h

/-- Up to the end marker that was found, a frame ends with it. -/
theorem eoi_suffix {buf : List UInt8} {i : Nat}
    (h : camVerifyJpegEoi buf = some i) : jpegEoi <:+ buf.take (i + 2) := by
  rw [camVerifyJpegEoi] at h
  split at h
  next => cases h
  next =>
    rw [← eoiFrom_some h, List.take_add]
    exact List.suffix_append _ _

/-- The end marker is behind the start marker, which stays. -/
theorem soi_take {buf : List UInt8} {i : Nat}
    (h : camVerifyJpegEoi buf = some i) (hsoi : jpegSoi <+: buf) :
    jpegSoi <+: buf.take (i + 2) := by
  obtain ⟨rest, rfl⟩ := hsoi
  cases i with
  | zero =>
      rw [camVerifyJpegEoi] at h
      split at h
      next => cases h
      next =>
        have := eoiFrom_some h
        cases this
  | succ i =>
      have htake : (jpegSoi ++ rest).take (i + 1 + 2)
          = jpegSoi ++ rest.take i := by
        rw [show i + 1 + 2 = jpegSoi.length + i by
          show i + 1 + 2 = 3 + i
          omega, List.take_length_add_append]
      rw [htake]
      exact List.prefix_append _ _

-- ============================================================ what is out

/-- The frames in `cam_task`'s hands. -/
def TaskPc.hand (framePos : Nat) : TaskPc → List Nat
  | .send | .pop => [framePos]
  | .resend fb2 => [framePos, fb2]
  | .give fb2 => [fb2]
  | .receive | .next _ | .scan _ _ => []

/-- The frames that the driver may not fill. -/
def State.out (s : State) : List Nat :=
  s.pc.hand s.framePos ++ s.queue ++ s.taken ++ s.held

/-- A frame that may be queued: a JPEG frame has its start marker, another
its full size. -/
def Config.Whole (c : Config) (buf : List UInt8) : Prop :=
  if c.jpegMode = true then jpegSoi <+: buf else buf.length = c.fbSize

/-- A JPEG frame that may be handed out ends with its end marker. -/
def Config.Closed (c : Config) (buf : List UInt8) : Prop :=
  c.jpegMode = true → jpegEoi <:+ buf

variable {c : Config} {s s' : State} {f : Nat}

variable (c) in
/-- What is known of the frame that is filled: it is the driver's, and
after its first half-buffer a JPEG frame has its start marker. -/
def State.Phase (s : State) : Prop :=
  match s.pc with
  | .receive => s.state = .readBuf → s.en s.framePos = true
      ∧ (c.jpegMode = true → s.cnt ≠ 0 → jpegSoi <+: s.fb s.framePos)
  | .next .idle | .scan .idle _ => s.state = .idle
  | _ => True

variable (c) in
/-- The flags say what is out, and what is out is whole. -/
structure Inv (s : State) : Prop where
  ledger : Ledger (· < c.frameCnt) s.en s.out
  pos : s.framePos < c.frameCnt
  phase : s.Phase c
  whole : ∀ f ∈ s.out, c.Whole (s.fb f)
  closed : ∀ f ∈ s.held, c.Closed (s.fb f)
  bounded : ∀ f, (s.fb f).length ≤ c.fbSize

/-- The driver starts with all its buffers. -/
theorem inv_init : Inv c State.init where
  ledger := ledger_start _
  pos := c.frameCnt_pos
  phase h := by cases h
  whole _ h := absurd h List.not_mem_nil
  closed _ h := absurd h List.not_mem_nil
  bounded _ := Nat.zero_le _

/-- The frame that is being filled is the driver's. -/
theorem Inv.reading (h : Inv c s) (hpc : s.pc = .receive)
    (hstate : s.state = .readBuf) : s.en s.framePos = true
      ∧ (c.jpegMode = true → s.cnt ≠ 0 → jpegSoi <+: s.fb s.framePos) := by
  have hphase := h.phase
  rw [State.Phase, hpc] at hphase
  exact hphase hstate

/-- The frame that is filled is not out. -/
theorem Inv.reading_not_out (h : Inv c s) (hpc : s.pc = .receive)
    (hstate : s.state = .readBuf) : s.framePos ∉ s.out :=
  (h.ledger.free_iff _ h.pos).mp (h.reading hpc hstate).1

/-- A frame whose end marker the application's call is still to check is
out. -/
theorem mem_out_of_taken (hf : f ∈ s.taken) : f ∈ s.out :=
  List.mem_append_left _ (List.mem_append_right _ hf)

/-- A frame that the application has is out. -/
theorem mem_out_of_held (hf : f ∈ s.held) : f ∈ s.out :=
  List.mem_append_right _ hf

/-- Changing a value elsewhere keeps what holds on a list. -/
theorem forall_update {α : Type} {P : α → Prop} {g : Nat → α} {l : List Nat}
    {x : Nat} (b : α) (hx : x ∉ l) (h : ∀ f ∈ l, P (g f)) :
    ∀ f ∈ l, P (Function.update g x b f) := by
  intro f hf
  have hne : f ≠ x := by
    rintro rfl
    exact hx hf
  rw [Function.update_of_ne hne]
  exact h f hf

/-- Replacing a buffer by one that fits keeps all within their size. -/
theorem bounded_update {fb : Nat → List UInt8} {n : Nat} (x : Nat)
    {buf : List UInt8} (h : ∀ f, (fb f).length ≤ n) (hbuf : buf.length ≤ n) :
    ∀ f, (Function.update fb x buf f).length ≤ n := by
  intro f
  by_cases hf : f = x
  · rw [hf, Function.update_self]
    exact hbuf
  · rw [Function.update_of_ne hf]
    exact h f

-- ============================================================= the events

/-- A half-buffer is copied into the frame that is filled, if at all. -/
theorem Inv.eof {half : List UInt8} (h : Inv c s) (hpc : s.pc = .receive)
    (hhalf : half.length = c.dmaHalfBufferSize) : Inv c (s.onEof c half) := by
  rw [State.onEof]
  split
  next => exact h
  next hstate =>
    split
    next => exact h
    next hroom =>
      obtain ⟨hen, hsoi⟩ := h.reading hpc hstate
      have hnot := h.reading_not_out hpc hstate
      have hlen : (s.fb s.framePos ++ half).length ≤ c.fbSize := by
        rw [List.length_append, hhalf]
        omega
      have hbounded := bounded_update s.framePos h.bounded hlen
      have hwhole := forall_update (s.fb s.framePos ++ half) hnot h.whole
      have hclosed := forall_update (s.fb s.framePos ++ half)
        (fun hm => hnot (mem_out_of_held hm)) h.closed
      dsimp only
      split
      next =>
        refine ⟨h.ledger, h.pos, ?_, hwhole, hclosed, hbounded⟩
        rw [State.Phase, hpc]
        exact fun hs => by cases hs
      next hok =>
        refine ⟨h.ledger, h.pos, ?_, hwhole, hclosed, hbounded⟩
        rw [State.Phase, hpc]
        refine fun _ => ⟨hen, fun hjpeg _ => ?_⟩
        dsimp only
        rw [Function.update_self]
        by_cases hcnt : s.cnt = 0
        · refine soi_prefix ?_
          by_contra hno
          exact hok ⟨hjpeg, hcnt, hno⟩
        · exact (hsoi hjpeg hcnt).trans (List.prefix_append _ _)

/-- What is out is the same outside `cam_task`, if it has no frame. -/
theorem State.out_of_hand (h : s.pc.hand s.framePos = []) :
    s.out = s.queue ++ s.taken ++ s.held := by
  rw [State.out, h]
  rfl

/-- At the end of a frame `cam_task` cuts it, sends it or starts the next. -/
theorem Inv.vsync {half : List UInt8} (h : Inv c s) (hpc : s.pc = .receive)
    (hhalf : half.length = c.dmaHalfBufferSize) :
    Inv c (s.onVsync c half) := by
  have hhand : s.out = s.queue ++ s.taken ++ s.held :=
    State.out_of_hand (by rw [hpc]; rfl)
  have hledger := h.ledger
  have hwhole := h.whole
  rw [hhand] at hledger hwhole
  rw [State.onVsync]
  split
  next hstate =>
    exact ⟨hledger, h.pos, hstate, hwhole, h.closed, h.bounded⟩
  next hstate =>
    obtain ⟨hen, hsoi⟩ := h.reading hpc hstate
    have hnot := h.reading_not_out hpc hstate
    split
    next hdone =>
      dsimp only
      generalize hbuf : (if c.jpegMode = true
        ∧ (s.fb s.framePos).length + c.dmaHalfBufferSize ≤ c.fbSize
        then s.fb s.framePos ++ half else s.fb s.framePos) = buf
      have hlen : buf.length ≤ c.fbSize := by
        rw [← hbuf]
        split
        next hroom =>
          rw [List.length_append, hhalf]
          exact hroom.2
        next => exact h.bounded _
      have hbounded := bounded_update s.framePos h.bounded hlen
      have hclosed := forall_update buf
        (fun hm => hnot (mem_out_of_held hm)) h.closed
      rw [hhand] at hnot
      have hkeep := forall_update buf hnot hwhole
      split
      next hfull =>
        refine ⟨hledger.lend h.pos hen, h.pos, trivial, ?_, hclosed,
          hbounded⟩
        intro f hf
        rcases List.mem_cons.mp hf with rfl | hf
        · dsimp only
          rw [Function.update_self, Config.Whole]
          by_cases hjpeg : c.jpegMode = true
          · rw [if_pos hjpeg]
            have hcnt : s.cnt ≠ 0 := by
              rcases hdone with hcnt | hno
              · exact hcnt
              · rw [hno] at hjpeg
                cases hjpeg
            rw [← hbuf]
            split
            next => exact (hsoi hjpeg hcnt).trans (List.prefix_append _ _)
            next => exact hsoi hjpeg hcnt
          · rw [if_neg hjpeg]
            exact hfull.resolve_left hjpeg
        · exact hkeep f hf
      next => exact ⟨hledger, h.pos, trivial, hkeep, hclosed, hbounded⟩
    next => exact ⟨hledger, h.pos, trivial, hwhole, h.closed, h.bounded⟩

-- ==================================================== the task's accesses

/-- A frame of the driver is filled from its beginning. -/
theorem Inv.started {state : CamState} {x : Nat} (h : Inv c s)
    (hhand : s.pc.hand s.framePos = []) (hx : x < c.frameCnt)
    (hen : s.en x = true) : Inv c (s.started state x) := by
  have hout := State.out_of_hand hhand
  have hledger := h.ledger
  have hwhole := h.whole
  have hnot := (h.ledger.free_iff x hx).mp hen
  rw [hout] at hledger hwhole hnot
  refine ⟨hledger, hx, ?_, forall_update [] hnot hwhole,
    forall_update [] (fun hm => hnot (List.mem_append_right _ hm)) h.closed,
    bounded_update x h.bounded (Nat.zero_le _)⟩
  exact fun _ => ⟨hen, fun _ hcnt => absurd rfl hcnt⟩

/-- Where no buffer is left the driver stops. -/
theorem Inv.notStarted {state : CamState} (h : Inv c s)
    (hhand : s.pc.hand s.framePos = [])
    (hidle : state = .idle → s.state = .idle) :
    Inv c (s.notStarted state) := by
  have hout := State.out_of_hand hhand
  have hledger := h.ledger
  have hwhole := h.whole
  rw [hout] at hledger hwhole
  refine ⟨hledger, h.pos, ?_, hwhole, h.closed, h.bounded⟩
  intro hread
  cases state with
  | idle => rw [State.notStarted, hidle rfl] at hread; cases hread
  | readBuf => cases hread

/-- A single access of `cam_task` keeps the invariant: one case for each place
it is at. -/
theorem Inv.task (h : Inv c s) (happ : s.task c = some s') : Inv c s' := by
  have hledger := h.ledger
  have hwhole := h.whole
  have hphase := h.phase
  rw [State.out] at hledger hwhole
  rw [State.Phase] at hphase
  rw [State.task] at happ
  cases hpc : s.pc with
  | receive => rw [hpc] at happ; cases happ
  | send =>
      rw [hpc] at happ hledger hwhole
      dsimp only at happ
      split at happ
      next hroom =>
        obtain rfl := Option.some.inj happ
        have hperm : (s.queue ++ [s.framePos] ++ s.taken ++ s.held).Perm
            ([s.framePos] ++ s.queue ++ s.taken ++ s.held) :=
          (List.perm_append_comm.append_right _).append_right _
        exact ⟨hledger.perm hperm, h.pos, trivial,
          fun f hf => hwhole f (hperm.mem_iff.mp hf), h.closed, h.bounded⟩
      next =>
        obtain rfl := Option.some.inj happ
        exact ⟨hledger, h.pos, trivial, hwhole, h.closed, h.bounded⟩
  | pop =>
      rw [hpc] at happ hledger hwhole
      dsimp only at happ
      split at happ
      next hq =>
        obtain rfl := Option.some.inj happ
        exact ⟨hledger.back, h.pos, trivial,
          fun f hf => hwhole f (List.mem_cons_of_mem _ hf), h.closed,
          h.bounded⟩
      next fb2 queue hq =>
        obtain rfl := Option.some.inj happ
        rw [hq] at hledger hwhole
        exact ⟨hledger, h.pos, trivial, hwhole, h.closed, h.bounded⟩
  | resend fb2 =>
      rw [hpc] at happ hledger hwhole
      dsimp only at happ
      split at happ
      next hroom =>
        obtain rfl := Option.some.inj happ
        have hperm : ([fb2] ++ (s.queue ++ [s.framePos]) ++ s.taken
            ++ s.held).Perm
            ([s.framePos, fb2] ++ s.queue ++ s.taken ++ s.held) := by
          refine (List.Perm.append_right _ ?_).append_right _
          exact (List.perm_append_singleton s.framePos (fb2 :: s.queue))
        exact ⟨hledger.perm hperm, h.pos, trivial,
          fun f hf => hwhole f (hperm.mem_iff.mp hf), h.closed, h.bounded⟩
      next =>
        obtain rfl := Option.some.inj happ
        exact ⟨hledger.back, h.pos, trivial,
          fun f hf => hwhole f (List.mem_cons_of_mem _ hf), h.closed,
          h.bounded⟩
  | give fb2 =>
      rw [hpc] at happ hledger hwhole
      obtain rfl := Option.some.inj happ
      exact ⟨hledger.back, h.pos, trivial,
        fun f hf => hwhole f (List.mem_cons_of_mem _ hf), h.closed, h.bounded⟩
  | next state =>
      have hhand : s.pc.hand s.framePos = [] := by rw [hpc]; rfl
      rw [hpc] at happ hphase hledger hwhole
      dsimp only at happ
      split at happ
      next hen =>
        obtain rfl := Option.some.inj happ
        exact h.started hhand h.pos hen
      next =>
        obtain rfl := Option.some.inj happ
        refine ⟨hledger, h.pos, ?_, hwhole, h.closed, h.bounded⟩
        cases state with
        | idle => exact hphase
        | readBuf => trivial
  | scan state x =>
      have hhand : s.pc.hand s.framePos = [] := by rw [hpc]; rfl
      rw [hpc] at happ hphase hledger hwhole
      dsimp only at happ
      split at happ
      next hx =>
        split at happ
        next hen =>
          obtain rfl := Option.some.inj happ
          exact h.started hhand hx hen
        next =>
          obtain rfl := Option.some.inj happ
          refine ⟨hledger, h.pos, ?_, hwhole, h.closed, h.bounded⟩
          cases state with
          | idle => exact hphase
          | readBuf => trivial
      next =>
        obtain rfl := Option.some.inj happ
        refine h.notStarted hhand ?_
        rintro rfl
        exact hphase

-- ======================================================= the application

/-- A step of the application changes nothing of the frame that is being
filled: flags only go up, and the frame it works on is out. -/
theorem Inv.phase_app (h : Inv c s) (hf : f ∈ s.out) {en : Nat → Bool}
    {fb : Nat → List UInt8} (hen : ∀ x, s.en x = true → en x = true)
    (hfb : ∀ x, x ≠ f → fb x = s.fb x) (queue taken held : List Nat) :
    State.Phase c { s with
      en := en, fb := fb, queue := queue, taken := taken, held := held } := by
  have hphase := h.phase
  rw [State.Phase] at hphase ⊢
  cases hpc : s.pc with
  | receive =>
      intro hstate
      obtain ⟨hpos, hsoi⟩ := h.reading hpc hstate
      have hne : s.framePos ≠ f := by
        rintro rfl
        exact h.reading_not_out hpc hstate hf
      refine ⟨hen _ hpos, ?_⟩
      dsimp only
      rw [hfb _ hne]
      exact hsoi
  | next state =>
      rw [hpc] at hphase
      cases state with
      | idle => exact hphase
      | readBuf => trivial
  | scan state x =>
      rw [hpc] at hphase
      cases state with
      | idle => exact hphase
      | readBuf => trivial
  | send | pop | resend _ | give _ => trivial

/-- Raising a flag lowers none. -/
theorem update_true {en : Nat → Bool} (f : Nat) :
    ∀ x, en x = true → Function.update en f true x = true := by
  intro x hx
  by_cases hxf : x = f
  · rw [hxf, Function.update_self]
  · rw [Function.update_of_ne hxf]
    exact hx

/-- `cam_take` gets the oldest frame of the queue. -/
theorem Inv.take {queue : List Nat} (h : Inv c s) (hq : s.queue = f :: queue) :
    Inv c { s with queue := queue, taken := f :: s.taken } := by
  have hperm : (s.pc.hand s.framePos ++ queue ++ f :: s.taken ++ s.held).Perm
      s.out := by
    rw [State.out, hq]
    refine List.Perm.append_right _ (List.perm_middle.trans ?_)
    exact (List.perm_middle.append_right s.taken).symm
  have hmem : f ∈ s.out := by
    rw [State.out, hq]
    exact List.mem_append_left _ (List.mem_append_left _
      (List.mem_append_right _ List.mem_cons_self))
  exact ⟨h.ledger.perm hperm, h.pos,
    h.phase_app hmem (fun _ hx => hx) (fun _ _ => rfl) _ _ _,
    fun x hx => h.whole x (hperm.mem_iff.mp hx), h.closed, h.bounded⟩

/-- A frame that is out goes back to the driver. -/
theorem Inv.raise {taken held : List Nat} (h : Inv c s) (hf : f ∈ s.out)
    (hperm : (f :: (s.pc.hand s.framePos ++ s.queue ++ taken ++ held)).Perm
      s.out) (hheld : ∀ x ∈ held, x ∈ s.held) :
    Inv c { s with
      en := Function.update s.en f true, taken := taken, held := held } :=
  ⟨(h.ledger.perm hperm).back, h.pos,
    h.phase_app hf (update_true f) (fun _ _ => rfl) _ _ _,
    fun x hx => h.whole x (hperm.mem_iff.mp (List.mem_cons_of_mem _ hx)),
    fun x hx => h.closed x (hheld x hx), h.bounded⟩

/-- A frame without end marker goes back to the driver; any other one is
handed out. -/
theorem Inv.check (h : Inv c s) (hf : f ∈ s.taken) : Inv c (s.check c f) := by
  have hout := mem_out_of_taken hf
  have hback : (f :: (s.pc.hand s.framePos ++ s.queue ++ s.taken.erase f
      ++ s.held)).Perm s.out := by
    have htaken : (f :: (s.pc.hand s.framePos ++ s.queue
        ++ s.taken.erase f)).Perm (s.pc.hand s.framePos ++ s.queue ++ s.taken) :=
      List.perm_middle.symm.trans
        ((List.perm_cons_erase hf).symm.append_left _)
    exact htaken.append_right s.held
  have hperm : (s.pc.hand s.framePos ++ s.queue ++ s.taken.erase f
      ++ f :: s.held).Perm s.out :=
    List.perm_middle.trans hback
  have hsame : ∀ x ∈ s.pc.hand s.framePos ++ s.queue ++ s.taken.erase f
      ++ f :: s.held, x ∈ s.out :=
    fun x hx => hperm.mem_iff.mp hx
  rw [State.check]
  by_cases hjpeg : c.jpegMode = true
  · rw [if_pos hjpeg]
    dsimp only
    split
    next offsetE hend =>
      have hwhole := h.whole f hout
      rw [Config.Whole, if_pos hjpeg] at hwhole
      have hcut : ∀ {P : List UInt8 → Prop} {l : List Nat},
          (∀ x ∈ l, x ≠ f → P (s.fb x)) → P ((s.fb f).take (offsetE + 2)) →
          ∀ x ∈ l, P (Function.update s.fb f
            ((s.fb f).take (offsetE + 2)) x) := by
        intro P l hl hP x hx
        by_cases hxf : x = f
        · rw [hxf, Function.update_self]
          exact hP
        · rw [Function.update_of_ne hxf]
          exact hl x hx hxf
      refine ⟨h.ledger.perm hperm, h.pos, h.phase_app hout (fun _ hx => hx)
        (fun x hx => Function.update_of_ne hx _ _) _ _ _, ?_, ?_, ?_⟩
      · refine hcut (fun x hx _ => h.whole x (hsame x hx)) ?_
        rw [Config.Whole, if_pos hjpeg]
        exact soi_take hend hwhole
      · refine hcut (fun x hx hxf => ?_) (fun _ => eoi_suffix hend)
        exact h.closed x ((List.mem_cons.mp hx).resolve_left hxf)
      · exact bounded_update f h.bounded
          (Nat.le_trans (List.length_take_le' _ _) (h.bounded f))
    next => exact h.raise hout hback fun x hx => hx
  · rw [if_neg hjpeg]
    refine ⟨h.ledger.perm hperm, h.pos, h.phase_app hout (fun _ hx => hx)
      (fun _ _ => rfl) _ _ _, fun x hx => h.whole x (hsame x hx), ?_,
      h.bounded⟩
    exact fun x _ hj => absurd hj hjpeg

/-- `cam_give` makes a frame that the application has the driver's again. -/
theorem Inv.give (h : Inv c s) (hf : f ∈ s.held) :
    Inv c { s with
      en := Function.update s.en f true, held := s.held.erase f } := by
  refine h.raise (mem_out_of_held hf) ?_ fun x hx => List.mem_of_mem_erase hx
  exact List.perm_middle.symm.trans
    ((List.perm_cons_erase hf).symm.append_left _)

-- ================================================================ runs

/-- Every step keeps the invariant. -/
theorem Inv.step {a : Action} (h : Inv c s)
    (happ : State.apply c a s = some s') : Inv c s' := by
  cases a with
  | eof half =>
      rw [State.apply] at happ
      split at happ
      next hok =>
        obtain rfl := Option.some.inj happ
        exact h.eof hok.1 hok.2
      next => cases happ
  | vsync half =>
      rw [State.apply] at happ
      split at happ
      next hok =>
        obtain rfl := Option.some.inj happ
        exact h.vsync hok.1 hok.2
      next => cases happ
  | task => exact h.task happ
  | overflow =>
      obtain rfl := Option.some.inj happ
      refine ⟨h.ledger, h.pos, ?_, h.whole, h.closed, h.bounded⟩
      rw [State.Phase]
      cases s.pc with
      | receive => exact fun hs => by cases hs
      | next state => cases state <;> trivial
      | scan state x => cases state <;> trivial
      | send | pop | resend _ | give _ => trivial
  | take =>
      rw [State.apply] at happ
      split at happ
      next => cases happ
      next f queue hq =>
        obtain rfl := Option.some.inj happ
        exact h.take hq
  | check f =>
      rw [State.apply] at happ
      split at happ
      next hf =>
        obtain rfl := Option.some.inj happ
        exact h.check hf
      next => cases happ
  | give f =>
      rw [State.apply] at happ
      split at happ
      next hf =>
        obtain rfl := Option.some.inj happ
        exact h.give hf
      next => cases happ

/-- It holds in every state reached. -/
theorem inv_reachable (hr : (machine c).Reachable s) : Inv c s :=
  hr.invariant inv_init fun _ _ _ h _ happ => h.step happ

end SitNChow.Camera
