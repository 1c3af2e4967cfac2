/-
Who owns what in the REST client: the mutex, the handle and the response
context belong to the call that is inside, and every block to the one
call that allocated it.

# The invariant

`Inv` ties the mutex to the places of the tasks and what is on the handle
to the place of its holder. `Inv.inside` and `Inv.outside` are the two
rules for a step: one that leaves the mutex with its holder, and one that
touches neither the handle nor the context. Taking and giving are the
only steps beside them.

# Own requests, own responses

`requests_not_mixed` reads the result off the invariant. The response
buffer takes `BODY_BUF_SIZE - 1` bytes; what does not fit is dropped.
-/
import SitNChow.Http

namespace SitNChow.Http

open Kit

universe u

variable {τ : Type u} [DecidableEq τ]

-- ========================================================= the invariant

/-- Between taking and giving `s_http_mutex`. -/
def Stage.Inside : Stage → Prop
  | .alloc | .take | .free _ => False
  | .calloc | .context | .setUrl | .setMethod | .setPostField | .perform
  | .finish _ | .give _ => True

/-- The blocks a call owns. -/
def Frame.ptrs (f : Frame) : List Ptr := f.body.toList ++ f.resp.toList

/-- The blocks of a task that may have no call. -/
def ptrsOf (f : Option Frame) : List Ptr := (f.map Frame.ptrs).getD []

/-- A call's own blocks: allocated, apart, its body with its JSON text,
its response buffer with what has been received for its request, cut to
the buffer. -/
structure Frame.Blocks (heap : Heap CString) (f : Frame) : Prop where
  lt : ∀ p ∈ f.ptrs, p < heap.next
  nodup : f.ptrs.Nodup
  body : ∀ p, f.body = some p → heap.get p = some f.call.json
  resp : ∀ p, f.resp = some p →
    heap.get p = some (f.received.take (bodyBufSize - 1))

/-- Which blocks a call has at its stage, and that nothing is received
for it before its request. -/
def Frame.Due (f : Frame) : Prop :=
  match f.stage with
  | .alloc => f.body = none ∧ f.resp = none ∧ f.received = []
  | .take | .calloc =>
      f.body.isSome = f.call.fn.writes ∧ f.resp = none ∧ f.received = []
  | .context | .setUrl | .setMethod | .setPostField =>
      f.body.isSome = f.call.fn.writes ∧ f.resp.isSome = true
        ∧ f.received = []
  | .perform | .finish _ =>
      f.body.isSome = f.call.fn.writes ∧ f.resp.isSome = true
  | .give ok | .free ok =>
      ok = true → f.call.fn = .get → f.resp.isSome = true

/-- The response context is a call's: its buffer, as far as it is
filled. -/
def Frame.Collects (ctx : RespCtx) (f : Frame) : Prop :=
  ctx = { buf := f.resp
          len := min (bodyBufSize - 1) f.received.length
          cap := bodyBufSize }

/-- What the holder of the mutex has set so far is what its request
needs. -/
def Frame.Configured (handle : Handle) (ctx : RespCtx) (f : Frame) : Prop :=
  match f.stage with
  | .setUrl => f.Collects ctx
  | .setMethod => f.Collects ctx ∧ handle.url = f.call.url
  | .setPostField =>
      f.Collects ctx ∧ handle.url = f.call.url
        ∧ handle.method = f.call.fn.httpMethod
  | .perform =>
      f.Collects ctx ∧ handle.url = f.call.url
        ∧ handle.method = f.call.fn.httpMethod
        ∧ handle.postField = if f.call.json ≠ [] then f.body else none
  | .alloc | .take | .calloc | .context | .finish _ | .give _ | .free _ =>
      True

/-- The invariant: the mutex is held by the task inside, every call has
its own blocks, and the holder has set up its own request. -/
structure Inv (s : State τ) : Prop where
  held : ∀ t, s.shared.mutex = some t
    ↔ ∃ f, s.task t = some f ∧ f.stage.Inside
  disjoint : ∀ t u p, p ∈ ptrsOf (s.task t) → p ∈ ptrsOf (s.task u) → t = u
  blocks : ∀ t f, s.task t = some f → f.Blocks s.shared.heap
  due : ∀ t f, s.task t = some f → f.Due
  configured : ∀ t f, s.task t = some f → f.stage.Inside →
    f.Configured s.shared.handle s.shared.ctx

section Steps

variable {s s' : State τ} {t : τ} {f g : Frame} {sh : Shared τ}
  {ok : Bool} {new : Option Frame}

omit [DecidableEq τ] in
theorem inv_init (url : CString) : Inv (State.init τ url) where
  held := fun t => by simp [State.init]
  disjoint := fun _ _ _ h => by simp [State.init, ptrsOf] at h
  blocks := fun _ _ h => nomatch h
  due := fun _ _ h => nomatch h
  configured := fun _ _ h => nomatch h

/-- Another heap with the same contents at a call's blocks serves it as
well. -/
theorem Frame.Blocks.frame {heap heap' : Heap CString} (h : f.Blocks heap)
    (hnext : heap.next ≤ heap'.next)
    (hsame : ∀ p ∈ f.ptrs, heap'.get p = heap.get p) : f.Blocks heap' where
  lt := fun p hp => Nat.lt_of_lt_of_le (h.lt p hp) hnext
  nodup := h.nodup
  body := fun p hp => by
    rw [hsame p (by simp [Frame.ptrs, hp]), h.body p hp]
  resp := fun p hp => by
    rw [hsame p (by simp [Frame.ptrs, hp]), h.resp p hp]

/-- The stage alone is no matter of the blocks. -/
theorem Frame.Blocks.atStage {heap : Heap CString} (h : f.Blocks heap)
    (st : Stage) : ({ f with stage := st } : Frame).Blocks heap :=
  ⟨h.lt, h.nodup, h.body, h.resp⟩

/-- A task's call after a step: the new one of the task that stepped, or
another task's. -/
theorem State.set_cases {u : τ} (hg : (s.set t new sh).task u = some g) :
    (u = t ∧ new = some g) ∨ (u ≠ t ∧ s.task u = some g) := by
  have hg : (if u = t then new else s.task u) = some g := hg
  split at hg
  · next hu => exact .inl ⟨hu, hg⟩
  · next hu => exact .inr ⟨hu, hg⟩

omit [DecidableEq τ] in
theorem ptrs_of_call (hf : s.task t = some f) : ptrsOf (s.task t) = f.ptrs := by
  simp [ptrsOf, hf]

omit [DecidableEq τ] in
theorem mem_ptrsOf {p : Ptr} (hp : p ∈ ptrsOf new) :
    ∃ f, new = some f ∧ p ∈ f.ptrs := by
  cases new with
  | none => cases hp
  | some f => exact ⟨f, rfl, hp⟩

omit [DecidableEq τ] in
/-- The blocks of the calls are allocated. -/
theorem Inv.ptr_lt (h : Inv s) {p : Ptr} (hp : p ∈ ptrsOf (s.task t)) :
    p < s.shared.heap.next := by
  obtain ⟨f, hf, hp⟩ := mem_ptrsOf hp
  exact (h.blocks t f hf).lt p hp

/-- A call whose blocks were its task's own or are new owns nothing of
another task's. -/
theorem Inv.set_disjoint (h : Inv s)
    (hptrs : ∀ p ∈ ptrsOf new,
      p ∈ ptrsOf (s.task t) ∨ s.shared.heap.next ≤ p) (u v : τ) (p : Ptr)
    (hu : p ∈ ptrsOf ((s.set t new sh).task u))
    (hv : p ∈ ptrsOf ((s.set t new sh).task v)) : u = v := by
  have hapart : ∀ w, w ≠ t → p ∈ ptrsOf new → p ∉ ptrsOf (s.task w) := by
    intro w hw hp hpw
    rcases hptrs p hp with hp | hp
    · exact hw (h.disjoint w t p hpw hp)
    · exact absurd (h.ptr_lt hpw) (Nat.not_lt_of_le hp)
  obtain ⟨f, hf, hpf⟩ := mem_ptrsOf hu
  obtain ⟨g, hg, hpg⟩ := mem_ptrsOf hv
  rcases State.set_cases hf with ⟨hut, hf⟩ | ⟨hut, hf⟩ <;>
    rcases State.set_cases hg with ⟨hvt, hg⟩ | ⟨hvt, hg⟩
  · rw [hut, hvt]
  · exact absurd (ptrs_of_call hg ▸ hpg) (hapart v hvt (hf ▸ hpf))
  · exact absurd (ptrs_of_call hf ▸ hpf) (hapart u hut (hg ▸ hpg))
  · exact h.disjoint u v p (ptrs_of_call hf ▸ hpf) (ptrs_of_call hg ▸ hpg)

/-- A step of one task: it changes blocks of its own or new ones, and the
handle and the context only from inside. -/
theorem Inv.update (h : Inv s)
    (hself : sh.mutex = some t ↔ ∃ g, new = some g ∧ g.stage.Inside)
    (hother : ∀ u, u ≠ t → (sh.mutex = some u ↔ s.shared.mutex = some u))
    (hconf : (∃ f, s.task t = some f ∧ f.stage.Inside)
      ∨ (sh.handle = s.shared.handle ∧ sh.ctx = s.shared.ctx))
    (hnext : s.shared.heap.next ≤ sh.heap.next)
    (hheap : ∀ p, p < s.shared.heap.next → p ∉ ptrsOf (s.task t) →
      sh.heap.get p = s.shared.heap.get p)
    (hptrs : ∀ p ∈ ptrsOf new,
      p ∈ ptrsOf (s.task t) ∨ s.shared.heap.next ≤ p)
    (hnew : ∀ g, new = some g → g.Blocks sh.heap ∧ g.Due
      ∧ (g.stage.Inside → g.Configured sh.handle sh.ctx)) :
    Inv (s.set t new sh) := by
  refine ⟨fun u => ?_, h.set_disjoint hptrs, fun u g hg => ?_, fun u g hg => ?_,
    fun u g hg hin => ?_⟩
  · show sh.mutex = some u
      ↔ ∃ g, (if u = t then new else s.task u) = some g ∧ g.stage.Inside
    by_cases hu : u = t
    · rw [if_pos hu, hu]
      exact hself
    · rw [if_neg hu]
      exact (hother u hu).trans (h.held u)
  · rcases State.set_cases hg with ⟨-, hg⟩ | ⟨hu, hg⟩
    · exact (hnew g hg).1
    · refine (h.blocks u g hg).frame hnext fun p hp => hheap p ?_ fun hpt => ?_
      · exact (h.blocks u g hg).lt p hp
      · exact hu (h.disjoint u t p (ptrs_of_call hg ▸ hp) hpt)
  · rcases State.set_cases hg with ⟨-, hg⟩ | ⟨-, hg⟩
    · exact (hnew g hg).2.1
    · exact h.due u g hg
  · rcases State.set_cases hg with ⟨-, hg⟩ | ⟨hu, hg⟩
    · exact (hnew g hg).2.2 hin
    · rcases hconf with hinside | ⟨hhandle, hctx⟩
      · -- only one task is inside
        have htm := (h.held t).mpr hinside
        have hum := (h.held u).mpr ⟨g, hg, hin⟩
        exact absurd (Option.some.inj (hum.symm.trans htm)) hu
      · show g.Configured sh.handle sh.ctx
        rw [hhandle, hctx]
        exact h.configured u g hg hin

/-- A step of the task inside that leaves it inside. -/
theorem Inv.inside (h : Inv s) (hf : s.task t = some f)
    (hin : f.stage.Inside) (hout : g.stage.Inside)
    (hmutex : sh.mutex = s.shared.mutex)
    (hnext : s.shared.heap.next ≤ sh.heap.next)
    (hheap : ∀ p, p < s.shared.heap.next → p ∉ f.ptrs →
      sh.heap.get p = s.shared.heap.get p)
    (hptrs : ∀ p ∈ g.ptrs, p ∈ f.ptrs ∨ s.shared.heap.next ≤ p)
    (hblocks : g.Blocks sh.heap) (hdue : g.Due)
    (hset : g.Configured sh.handle sh.ctx) :
    Inv (s.set t (some g) sh) := by
  refine h.update ?_ (fun u _ => by rw [hmutex]) (.inl ⟨f, hf, hin⟩) hnext
    ?_ ?_ fun g' hg' => Option.some.inj hg' ▸ ⟨hblocks, hdue, fun _ => hset⟩
  · rw [hmutex, h.held t]
    exact ⟨fun _ => ⟨g, rfl, hout⟩, fun _ => ⟨f, hf, hin⟩⟩
  · simpa [ptrsOf, hf] using hheap
  · simpa [ptrsOf, hf] using hptrs

/-- A step inside that keeps the heap and, of the call, all but its
stage. -/
theorem Inv.setup (h : Inv s) {st : Stage} (hf : s.task t = some f)
    (hin : f.stage.Inside) (hout : st.Inside)
    (hmutex : sh.mutex = s.shared.mutex) (hheap : sh.heap = s.shared.heap)
    (hdue : ({ f with stage := st } : Frame).Due)
    (hset : ({ f with stage := st } : Frame).Configured sh.handle sh.ctx) :
    Inv (s.set t (some { f with stage := st }) sh) := by
  refine h.inside hf hin hout hmutex (Nat.le_of_eq (by rw [hheap]))
    (fun _ _ _ => by rw [hheap]) (fun _ hp => .inl hp) ?_ hdue hset
  rw [hheap]
  exact (h.blocks t f hf).atStage st

/-- A step outside: the mutex, the handle and the context stay. -/
theorem Inv.outside (h : Inv s)
    (hout : ∀ f, s.task t = some f → ¬ f.stage.Inside)
    (hmutex : sh.mutex = s.shared.mutex)
    (hhandle : sh.handle = s.shared.handle) (hctx : sh.ctx = s.shared.ctx)
    (hnext : s.shared.heap.next ≤ sh.heap.next)
    (hheap : ∀ p, p < s.shared.heap.next → p ∉ ptrsOf (s.task t) →
      sh.heap.get p = s.shared.heap.get p)
    (hptrs : ∀ p ∈ ptrsOf new,
      p ∈ ptrsOf (s.task t) ∨ s.shared.heap.next ≤ p)
    (hnew : ∀ g, new = some g →
      g.Blocks sh.heap ∧ g.Due ∧ ¬ g.stage.Inside) :
    Inv (s.set t new sh) := by
  refine h.update ?_ (fun u _ => by rw [hmutex]) (.inr ⟨hhandle, hctx⟩) hnext
    hheap hptrs fun g hg => ?_
  · rw [hmutex, h.held t]
    constructor
    · rintro ⟨f, hf, hin⟩
      exact absurd hin (hout f hf)
    · rintro ⟨g, hg, hin⟩
      exact absurd hin (hnew g hg).2.2
  · obtain ⟨hblocks, hdue, hno⟩ := hnew g hg
    exact ⟨hblocks, hdue, fun hin => absurd hin hno⟩

-- ======================================================== the data event

/-- Appending to a clipped list what still fits is clipping the whole. -/
theorem take_append_clip {α : Type u} (n : Nat) (xs ys : List α) :
    (xs.take n).take (min n xs.length)
      ++ ys.take (min ys.length (n - min n xs.length)) = (xs ++ ys).take n := by
  rw [List.take_append,
    List.take_of_length_le (Nat.le_of_eq List.length_take)]
  congr 1
  rw [List.take_eq_take_iff]
  omega

omit [DecidableEq τ] in
/-- What a data event does to a buffer that holds what has been received
so far: what fits of the chunk is appended. -/
theorem onData_spec (chunk : CString) {received : CString} {buf : Ptr}
    (hctx : sh.ctx = { buf := some buf
                       len := min (bodyBufSize - 1) received.length
                       cap := bodyBufSize })
    (hget : sh.heap.get buf = some (received.take (bodyBufSize - 1))) :
    (sh.onData chunk).mutex = sh.mutex
      ∧ (sh.onData chunk).handle = sh.handle
      ∧ (sh.onData chunk).heap.next = sh.heap.next
      ∧ (∀ p, p ≠ buf → (sh.onData chunk).heap.get p = sh.heap.get p)
      ∧ (sh.onData chunk).heap.get buf
          = some ((received ++ chunk).take (bodyBufSize - 1))
      ∧ (sh.onData chunk).ctx
          = { buf := some buf
              len := min (bodyBufSize - 1) (received ++ chunk).length
              cap := bodyBufSize } := by
  have hlen : (received ++ chunk).length = received.length + chunk.length :=
    List.length_append
  have hremaining : bodyBufSize - min (bodyBufSize - 1) received.length - 1
      = bodyBufSize - 1 - min (bodyBufSize - 1) received.length := by omega
  have hclip := take_append_clip (bodyBufSize - 1) received chunk
  have hmin : min (bodyBufSize - 1) received.length
      + min chunk.length
          (bodyBufSize - 1 - min (bodyBufSize - 1) received.length)
      = min (bodyBufSize - 1) (received ++ chunk).length := by
    rw [hlen]
    omega
  simp only [Shared.onData, hctx, hget, hremaining]
  split
  · refine ⟨rfl, rfl, rfl, fun p hp => Heap.get_write_ne _ hp, ?_, ?_⟩
    · rw [Heap.get_write_self _ hget, hclip]
    · rw [hmin]
  · next hfull =>
    -- an empty chunk, or a full buffer
    have hnone := Nat.eq_zero_of_not_pos hfull
    rw [hnone] at hclip hmin
    refine ⟨rfl, rfl, rfl, fun _ _ => rfl, ?_, ?_⟩
    · rw [hget, ← hclip, List.take_zero, List.append_nil,
        List.take_of_length_le (Nat.le_of_eq List.length_take)]
    · rw [hctx, ← hmin]
      rfl

-- ============================================================= the steps

/-- A call that begins has no blocks yet. -/
theorem Inv.call (h : Inv s) (ht : s.task t = none) (c : Call) :
    Inv (s.set t (some { call := c, body := none, resp := none
                         stage := .alloc, received := [] }) s.shared) := by
  refine h.outside (fun f hf => ?_) rfl rfl rfl (Nat.le_refl _)
    (fun _ _ _ => rfl) (fun _ hp => nomatch hp) fun g hg => ?_
  · rw [ht] at hf
    cases hf
  · obtain rfl := Option.some.inj hg
    exact ⟨⟨fun _ hp => (nomatch hp), .nil, fun _ hp => (nomatch hp),
      fun _ hp => (nomatch hp)⟩, ⟨rfl, rfl, rfl⟩, id⟩

/-- The printed JSON value is a new block of the call's. -/
theorem Inv.alloc (h : Inv s) (hf : s.task t = some f)
    (hst : f.stage = .alloc)
    (hs : f.step t ok s.shared = some (new, sh)) : Inv (s.set t new sh) := by
  obtain ⟨hbody, hresp, hreceived⟩ :
      f.body = none ∧ f.resp = none ∧ f.received = [] := by
    simpa only [Frame.Due, hst] using h.due t f hf
  have hout : ∀ f', s.task t = some f' → ¬ f'.stage.Inside := by
    intro f' hf'
    obtain rfl := Option.some.inj (hf.symm.trans hf')
    rw [hst]
    exact id
  simp only [Frame.step, hst] at hs
  split at hs
  · split at hs
    · next hwrites =>
      obtain ⟨rfl, rfl⟩ := Prod.mk.inj (Option.some.inj hs)
      have hptrs : ({ f with body := some s.shared.heap.next
                             stage := .take } : Frame).ptrs
          = [s.shared.heap.next] := by
        simp [Frame.ptrs, hresp]
      refine h.outside hout rfl rfl rfl (Nat.le_succ _)
        (fun p hp _ => Heap.get_alloc_of_lt _ hp) (fun p hp => .inr ?_)
        fun g hg => ?_
      · have hp : p ∈ [s.shared.heap.next] := hptrs ▸ hp
        exact Nat.le_of_eq (List.mem_singleton.mp hp).symm
      · obtain rfl := Option.some.inj hg
        refine ⟨⟨?_, ?_, fun p hp => ?_, fun p hp => ?_⟩,
          ⟨hwrites.symm, hresp, hreceived⟩, id⟩
        · rw [hptrs]
          simp
        · rw [hptrs]
          simp
        · obtain rfl := Option.some.inj hp
          exact Heap.get_alloc_self _
        · rw [show f.resp = some p from hp] at hresp
          cases hresp
    · next hreads =>
      obtain ⟨rfl, rfl⟩ := Prod.mk.inj (Option.some.inj hs)
      have hnone : f.body.isSome = f.call.fn.writes := by
        rw [hbody, Bool.eq_false_iff.mpr hreads]
        rfl
      have hblocks := h.blocks t f hf
      refine h.outside hout rfl rfl rfl (Nat.le_refl _) (fun _ _ _ => rfl)
        (fun p hp => .inl ?_) fun g hg => ?_
      · rw [hf]
        exact hp
      · obtain rfl := Option.some.inj hg
        exact ⟨hblocks.atStage _, ⟨hnone, hresp, hreceived⟩, id⟩
  · obtain ⟨rfl, rfl⟩ := Prod.mk.inj (Option.some.inj hs)
    exact h.outside hout rfl rfl rfl (Nat.le_refl _) (fun _ _ _ => rfl)
      (fun _ hp => nomatch hp) fun _ hg => nomatch hg

/-- Taking the mutex; nobody was inside. -/
theorem Inv.take (h : Inv s) (hf : s.task t = some f)
    (hst : f.stage = .take)
    (hs : f.step t ok s.shared = some (new, sh)) : Inv (s.set t new sh) := by
  have hdue : f.body.isSome = f.call.fn.writes ∧ f.resp = none
      ∧ f.received = [] := by
    simpa only [Frame.Due, hst] using h.due t f hf
  have hblocks := h.blocks t f hf
  simp only [Frame.step, hst] at hs
  split at hs
  · next hfree =>
    obtain ⟨rfl, rfl⟩ := Prod.mk.inj (Option.some.inj hs)
    refine h.update ⟨fun _ => ⟨_, rfl, trivial⟩, fun _ => rfl⟩
      (fun u hu => ?_) (.inr ⟨rfl, rfl⟩) (Nat.le_refl _) (fun _ _ _ => rfl)
      (fun p hp => .inl ?_) fun g hg => ?_
    · rw [hfree]
      exact ⟨fun heq => absurd (Option.some.inj heq).symm hu,
        fun heq => nomatch heq⟩
    · rw [hf]
      exact hp
    · obtain rfl := Option.some.inj hg
      exact ⟨hblocks.atStage _, hdue, fun _ => trivial⟩
  · cases hs

/-- The response buffer is a new block of the call's, or there is none. -/
theorem Inv.calloc (h : Inv s) (hf : s.task t = some f)
    (hst : f.stage = .calloc)
    (hs : f.step t ok s.shared = some (new, sh)) : Inv (s.set t new sh) := by
  obtain ⟨hbody, hresp, hreceived⟩ :
      f.body.isSome = f.call.fn.writes ∧ f.resp = none ∧ f.received = [] := by
    simpa only [Frame.Due, hst] using h.due t f hf
  have hin : f.stage.Inside := by rw [hst]; trivial
  have hblocks := h.blocks t f hf
  have hold : f.ptrs = f.body.toList := by simp [Frame.ptrs, hresp]
  simp only [Frame.step, hst] at hs
  split at hs
  · obtain ⟨rfl, rfl⟩ := Prod.mk.inj (Option.some.inj hs)
    have hptrs : ({ f with resp := some s.shared.heap.next
                           stage := .context } : Frame).ptrs
        = f.ptrs ++ [s.shared.heap.next] := by
      rw [hold]
      rfl
    refine h.inside hf hin trivial rfl (Nat.le_succ _)
      (fun p hp _ => Heap.get_alloc_of_lt _ hp) (fun p hp => ?_)
      ⟨fun p hp => ?_, ?_, fun p hp => ?_, fun p hp => ?_⟩
      ⟨hbody, rfl, hreceived⟩ trivial
    · rw [hptrs] at hp
      rcases List.mem_append.mp hp with hp | hp
      · exact .inl hp
      · exact .inr (Nat.le_of_eq (List.mem_singleton.mp hp).symm)
    · rw [hptrs] at hp
      rcases List.mem_append.mp hp with hp | hp
      · exact Nat.lt_succ_of_lt (hblocks.lt p hp)
      · rw [List.mem_singleton.mp hp]
        exact Nat.lt_succ_self _
    · rw [hptrs]
      refine List.nodup_append.mpr ⟨hblocks.nodup, by simp, ?_⟩
      intro p hp q hq
      rw [List.mem_singleton.mp hq]
      exact Nat.ne_of_lt (hblocks.lt p hp)
    · have hlt : p < s.shared.heap.next := by
        refine hblocks.lt p ?_
        rw [hold, show f.body = some p from hp]
        exact List.mem_singleton_self p
      exact (Heap.get_alloc_of_lt _ hlt).trans (hblocks.body p hp)
    · obtain rfl := Option.some.inj hp
      show _ = some (f.received.take _)
      rw [hreceived]
      exact Heap.get_alloc_self _
  · obtain ⟨rfl, rfl⟩ := Prod.mk.inj (Option.some.inj hs)
    exact h.setup hf hin trivial rfl rfl (fun hok => nomatch hok) trivial

/-- Pointing the response context at the buffer and setting up the
handle, one setting a step. -/
theorem Inv.configure (h : Inv s) (hf : s.task t = some f)
    (hst : f.stage = .context ∨ f.stage = .setUrl ∨ f.stage = .setMethod
      ∨ f.stage = .setPostField)
    (hs : f.step t ok s.shared = some (new, sh)) : Inv (s.set t new sh) := by
  have hdue := h.due t f hf
  have hconf := h.configured t f hf
  rcases hst with hst | hst | hst | hst <;>
    simp only [Frame.step, Frame.Due, Frame.Configured, hst] at hs hdue hconf
  · obtain ⟨rfl, rfl⟩ := Prod.mk.inj (Option.some.inj hs)
    refine h.setup hf (by rw [hst]; trivial) trivial rfl rfl hdue ?_
    show _ = RespCtx.mk f.resp (min _ f.received.length) _
    rw [hdue.2.2]
    rfl
  · obtain ⟨rfl, rfl⟩ := Prod.mk.inj (Option.some.inj hs)
    exact h.setup hf (by rw [hst]; trivial) trivial rfl rfl hdue
      ⟨hconf trivial, rfl⟩
  · obtain ⟨rfl, rfl⟩ := Prod.mk.inj (Option.some.inj hs)
    obtain ⟨hctx, hurl⟩ := hconf trivial
    exact h.setup hf (by rw [hst]; trivial) trivial rfl rfl hdue
      ⟨hctx, hurl, methodOf_name _⟩
  · obtain ⟨rfl, rfl⟩ := Prod.mk.inj (Option.some.inj hs)
    obtain ⟨hctx, hurl, hmethod⟩ := hconf trivial
    refine h.setup hf (by rw [hst]; trivial) trivial rfl rfl
      ⟨hdue.1, hdue.2.1⟩ ⟨hctx, hurl, hmethod, ?_⟩
    show f.body.filter _ = if f.call.json ≠ [] then f.body else none
    cases hbody : f.body with
    | none => simp
    | some p =>
        -- the body is the call's own, so its text is the call's
        rw [Option.filter_some, (h.blocks t f hf).body p hbody]
        simp

omit [DecidableEq τ] in
/-- Freeing changes no other block. -/
theorem free_heap (sh : Shared τ) (q : Option Ptr) :
    (sh.free q).mutex = sh.mutex ∧ (sh.free q).handle = sh.handle
      ∧ (sh.free q).ctx = sh.ctx ∧ (sh.free q).heap.next = sh.heap.next
      ∧ ∀ p, p ∉ q → (sh.free q).heap.get p = sh.heap.get p := by
  cases q with
  | none => exact ⟨rfl, rfl, rfl, rfl, fun _ _ => rfl⟩
  | some q =>
      exact ⟨rfl, rfl, rfl, rfl, fun p hp =>
        Heap.get_free_ne _ fun heq => hp (heq ▸ rfl)⟩

/-- The end of the request and of `do_request`, which frees the buffer
unless it is handed out. -/
theorem Inv.finish (h : Inv s) (hf : s.task t = some f)
    (hst : f.stage = .perform ∨ ∃ err, f.stage = .finish err)
    (hs : f.step t ok s.shared = some (new, sh)) : Inv (s.set t new sh) := by
  have hdue := h.due t f hf
  have hblocks := h.blocks t f hf
  rcases hst with hst | ⟨err, hst⟩ <;>
    simp only [Frame.step, Frame.Due, hst] at hs hdue
  · obtain ⟨rfl, rfl⟩ := Prod.mk.inj (Option.some.inj hs)
    exact h.setup hf (by rw [hst]; trivial) trivial rfl rfl hdue trivial
  · have hin : f.stage.Inside := by rw [hst]; trivial
    split at hs
    · obtain ⟨rfl, rfl⟩ := Prod.mk.inj (Option.some.inj hs)
      exact h.setup hf hin trivial rfl rfl (fun _ _ => hdue.2) trivial
    · next hget =>
      obtain ⟨rfl, rfl⟩ := Prod.mk.inj (Option.some.inj hs)
      obtain ⟨hmutex, -, -, hnext, hsame⟩ := free_heap s.shared f.resp
      have hptrs : ({ f with resp := none, stage := .give err } : Frame).ptrs
          = f.body.toList := by simp [Frame.ptrs]
      have hsub : ∀ p ∈ f.body.toList, p ∈ f.ptrs := fun p hp =>
        List.mem_append_left _ hp
      have hkept : ∀ p ∈ f.body.toList, p ∉ f.resp := by
        intro p hp hpr
        have hpr : p ∈ f.resp.toList := by simpa using hpr
        exact (List.nodup_append.mp hblocks.nodup).2.2 p hp p hpr rfl
      refine h.inside hf hin trivial hmutex (Nat.le_of_eq hnext.symm)
        (fun p _ hp => hsame p fun hpr => hp ?_) (fun p hp => .inl ?_)
        ⟨fun p hp => ?_, ?_, fun p hp => ?_, fun _ hp => nomatch hp⟩
        (fun _ heq => absurd heq hget) trivial
      · exact List.mem_append_right _ (by simpa using hpr)
      · exact hsub p (hptrs ▸ hp)
      · rw [hnext]
        exact hblocks.lt p (hsub p (hptrs ▸ hp))
      · rw [hptrs]
        exact (List.nodup_append.mp hblocks.nodup).1
      · have hbody : f.body = some p := hp
        rw [hsame p (hkept p (by simp [hbody]))]
        exact hblocks.body p hbody

/-- Giving the mutex back. -/
theorem Inv.give (h : Inv s) {err : Bool} (hf : s.task t = some f)
    (hst : f.stage = .give err)
    (hs : f.step t ok s.shared = some (new, sh)) : Inv (s.set t new sh) := by
  have hdue := h.due t f hf
  have hblocks := h.blocks t f hf
  have hmine := (h.held t).mpr ⟨f, hf, by rw [hst]; trivial⟩
  simp only [Frame.step, Frame.Due, hst] at hs hdue
  obtain ⟨rfl, rfl⟩ := Prod.mk.inj (Option.some.inj hs)
  refine h.update ⟨fun heq => (nomatch heq), fun hin => ?_⟩ (fun u hu => ?_)
    (.inr ⟨rfl, rfl⟩) (Nat.le_refl _) (fun _ _ _ => rfl)
    (fun p hp => .inl ?_) fun g hg => ?_
  · obtain ⟨g, hg, hin⟩ := hin
    obtain rfl := Option.some.inj hg
    exact absurd hin id
  · rw [hmine]
    exact ⟨fun heq => (nomatch heq),
      fun heq => absurd (Option.some.inj heq).symm hu⟩
  · rw [hf]
    exact hp
  · obtain rfl := Option.some.inj hg
    exact ⟨hblocks.atStage _, hdue, fun _ => trivial⟩

/-- Freeing what the call has left. -/
theorem Inv.free (h : Inv s) {err : Bool} (hf : s.task t = some f)
    (hst : f.stage = .free err)
    (hs : f.step t ok s.shared = some (new, sh)) : Inv (s.set t new sh) := by
  simp only [Frame.step, hst] at hs
  obtain ⟨rfl, rfl⟩ := Prod.mk.inj (Option.some.inj hs)
  obtain ⟨hmutex, hhandle, hctx, hnext, hsame⟩ :=
    free_heap s.shared f.body
  obtain ⟨hmutex', hhandle', hctx', hnext', hsame'⟩ :=
    free_heap (s.shared.free f.body) f.resp
  refine h.outside (fun f' hf' => ?_) (hmutex'.trans hmutex)
    (hhandle'.trans hhandle) (hctx'.trans hctx)
    (Nat.le_of_eq (hnext'.trans hnext).symm) (fun p _ hp => ?_)
    (fun _ hp => nomatch hp) fun _ hg => nomatch hg
  · obtain rfl := Option.some.inj (hf.symm.trans hf')
    rw [hst]
    exact id
  · have hp : p ∉ f.ptrs := by simpa [ptrsOf, hf] using hp
    refine (hsame' p fun hpr => hp ?_).trans (hsame p fun hpb => hp ?_)
    · exact List.mem_append_right _ (by simpa using hpr)
    · exact List.mem_append_left _ (by simpa using hpb)

/-- Data for the request under way goes to its own call's buffer. -/
theorem Inv.data (h : Inv s) (hf : s.task t = some f)
    (hst : f.stage = .perform) (chunk : CString) :
    Inv (s.set t (some { f with received := f.received ++ chunk })
      (s.shared.onData chunk)) := by
  have hin : f.stage.Inside := by rw [hst]; trivial
  have hdue := h.due t f hf
  have hconf := h.configured t f hf hin
  have hblocks := h.blocks t f hf
  simp only [Frame.Due, Frame.Configured, hst] at hdue hconf
  obtain ⟨hctx, hurl, hmethod, hpost⟩ := hconf
  obtain ⟨buf, hresp⟩ := Option.isSome_iff_exists.mp hdue.2
  rw [Frame.Collects, hresp] at hctx
  obtain ⟨hmutex, hhandle, hnext, hother, hself, hctx'⟩ :=
    onData_spec chunk hctx (hblocks.resp buf hresp)
  have hbuf : buf ∈ f.ptrs := by simp [Frame.ptrs, hresp]
  refine h.inside hf hin hin hmutex (Nat.le_of_eq hnext.symm)
    (fun p _ hp => hother p fun heq => hp (heq ▸ hbuf)) (fun p hp => .inl hp)
    ⟨fun p hp => ?_, hblocks.nodup, fun p hp => ?_, fun p hp => ?_⟩ ?_ ?_
  · rw [hnext]
    exact hblocks.lt p hp
  · have hbody : f.body = some p := hp
    have hne : p ≠ buf := by
      refine (List.nodup_append.mp hblocks.nodup).2.2 p ?_ buf ?_
      · simp [hbody]
      · simp [hresp]
    rw [hother p hne]
    exact hblocks.body p hbody
  · obtain rfl := Option.some.inj (hresp.symm.trans hp)
    exact hself
  · simpa only [Frame.Due, hst] using hdue
  · simp only [Frame.Configured, hst, Frame.Collects]
    rw [hhandle, hctx', hresp]
    exact ⟨rfl, hurl, hmethod, hpost⟩

/-- One step of a call keeps the invariant. -/
theorem Inv.step (h : Inv s) (hf : s.task t = some f)
    (hs : f.step t ok s.shared = some (new, sh)) : Inv (s.set t new sh) := by
  cases hst : f.stage with
  | alloc => exact h.alloc hf hst hs
  | take => exact h.take hf hst hs
  | calloc => exact h.calloc hf hst hs
  | context => exact h.configure hf (.inl hst) hs
  | setUrl => exact h.configure hf (.inr (.inl hst)) hs
  | setMethod => exact h.configure hf (.inr (.inr (.inl hst))) hs
  | setPostField => exact h.configure hf (.inr (.inr (.inr hst))) hs
  | perform => exact h.finish hf (.inl hst) hs
  | finish err => exact h.finish hf (.inr ⟨err, hst⟩) hs
  | give err => exact h.give hf hst hs
  | free err => exact h.free hf hst hs

/-- Every step of the client keeps the invariant. -/
theorem Inv.apply (h : Inv s) {a : Action τ} (happ : s.apply a = some s') :
    Inv s' := by
  cases a with
  | call t c =>
      simp only [State.apply] at happ
      split at happ
      · next ht =>
        obtain rfl := Option.some.inj happ
        exact h.call ht c
      · cases happ
  | step t ok =>
      simp only [State.apply] at happ
      split at happ
      · next f hf =>
        obtain ⟨⟨new, sh⟩, hs, rfl⟩ := Option.map_eq_some_iff.mp happ
        exact h.step hf hs
      · cases happ
  | data t chunk =>
      simp only [State.apply] at happ
      split at happ
      · next f hf =>
        split at happ
        · next hst =>
          obtain rfl := Option.some.inj happ
          exact h.data hf hst chunk
        · cases happ
      · cases happ

/-- The invariant holds in every state reached. -/
theorem inv_reachable {url : CString} (hr : (rest τ url).Reachable s) :
    Inv s :=
  hr.invariant (inv_init url) fun _ _ _ h _ happ => h.apply happ

end Steps

-- ========================================== own requests, own responses

section NotMixed

variable {τ : Type u} [DecidableEq τ] {s : State τ} {t : τ} {f : Frame}
  {url : CString}

omit [DecidableEq τ] in
/-- A post field that is a call's own body carries the call's text, and
one that is NULL belongs to a call without a body. -/
theorem wire_of_configured (hblocks : f.Blocks s.shared.heap)
    (hbody : f.body.isSome = f.call.fn.writes)
    (hurl : s.shared.handle.url = f.call.url)
    (hmethod : s.shared.handle.method = f.call.fn.httpMethod)
    (hpost : s.shared.handle.postField
      = if f.call.json ≠ [] then f.body else none) :
    s.shared.wire = some f.call.request := by
  rw [Shared.wire, hpost, hurl, hmethod]
  cases hf : f.body with
  | none =>
      rw [hf] at hbody
      have hreads : f.call.fn.writes = false := hbody.symm
      simp [Call.request, hreads]
  | some p =>
      rw [hf] at hbody
      have hwrites : f.call.fn.writes = true := hbody.symm
      by_cases hjson : f.call.json = []
      · simp [Call.request, hjson]
      · simp [Call.request, hjson, hwrites, hblocks.body p hf]

/-- In every state reached, a request under way is its own call's, and a
response buffer has what was received for its own call's request, up to
the capacity of the buffer; `firebase_get` is handed that buffer. -/
theorem requests_not_mixed (hr : (rest τ url).Reachable s)
    (hf : s.task t = some f) :
    (f.stage = .perform → s.shared.wire = some f.call.request)
      ∧ (∀ p, f.resp = some p →
          s.shared.heap.get p = some (f.received.take (bodyBufSize - 1)))
      ∧ (f.call.fn = .get → f.stage = .free true →
          ∃ p, f.resp = some p
            ∧ (f.received.length < bodyBufSize →
                s.shared.heap.get p = some f.received)) := by
  have h := inv_reachable hr
  have hblocks := h.blocks t f hf
  have hdue := h.due t f hf
  refine ⟨fun hst => ?_, hblocks.resp, fun hget hst => ?_⟩
  · have hconf := h.configured t f hf (by rw [hst]; trivial)
    simp only [Frame.Due, Frame.Configured, hst] at hdue hconf
    obtain ⟨-, hurl, hmethod, hpost⟩ := hconf
    exact wire_of_configured hblocks hdue.1 hurl hmethod hpost
  · simp only [Frame.Due, hst] at hdue
    obtain ⟨p, hp⟩ := Option.isSome_iff_exists.mp (hdue trivial hget)
    refine ⟨p, hp, fun hlen => ?_⟩
    rw [hblocks.resp p hp, List.take_of_length_le (Nat.le_sub_one_of_lt hlen)]

end NotMixed

/-- A PATCH, and a GET that waits for it. -/
def patchThenGet : List (Action Bool) :=
  [.call false { fn := .patch, url := cstr "a", json := cstr "1" },
    .call true { fn := .get, url := cstr "b", json := [] },
    .step false true, .step true true, .step false true]
    ++ List.replicate 5 (.step false true)
    ++ [.data false (cstr "1"), .step false true, .step false true,
      .step false true, .step true true, .step false true]
    ++ List.replicate 5 (.step true true)

/-- The rule on that run: after a PATCH whose body is freed by now, the
GET goes out with its own URL and no body. -/
theorem requests_not_mixed_handover :
    ∃ s, (rest Bool []).Reachable s
      ∧ s.shared.wire
        = some { url := cstr "b", method := .get, body := none } := by
  have hrun : (((rest Bool []).run (State.init Bool []) patchThenGet).bind
      fun s => s.task true).map (fun f => (f.stage, f.call.request))
      = some (.perform,
        { url := cstr "b", method := .get, body := none }) := by
    decide
  obtain ⟨f, hf, heq⟩ := Option.map_eq_some_iff.mp hrun
  obtain ⟨s, hs, hf⟩ := Option.bind_eq_some_iff.mp hf
  obtain ⟨hst, hreq⟩ := Prod.mk.inj heq
  have hr := Machine.reachable_of_run hs
  exact ⟨s, hr, hreq ▸ (requests_not_mixed hr hf).1 hst⟩

/-- A GET whose response is one byte longer than the buffer holds. -/
def longGet : List (Action Unit) :=
  .call () { fn := .get, url := cstr "a", json := [] }
    :: List.replicate 7 (.step () true)
    ++ [.data () (List.replicate bodyBufSize 65), .step () true,
      .step () true, .step () true]

/-- That call succeeds with a text that is not the response. -/
theorem long_response_cut :
    ∃ s f p, (rest Unit []).Reachable s ∧ s.task () = some f
      ∧ f.stage = .free true ∧ f.call.fn = .get ∧ f.resp = some p
      ∧ s.shared.heap.get p ≠ some f.received := by
  have hrun : (((rest Unit []).run (State.init Unit []) longGet).bind
      fun s => s.task ()).map
        (fun f => (f.stage, f.call.fn, f.resp, f.received))
      = some (.free true, .get, some 0, List.replicate bodyBufSize 65) := rfl
  obtain ⟨f, hf, heq⟩ := Option.map_eq_some_iff.mp hrun
  obtain ⟨s, hs, hf⟩ := Option.bind_eq_some_iff.mp hf
  obtain ⟨hst, hrest⟩ := Prod.mk.inj heq
  obtain ⟨hget, hrest⟩ := Prod.mk.inj hrest
  obtain ⟨hresp, hreceived⟩ := Prod.mk.inj hrest
  have hr := Machine.reachable_of_run hs
  refine ⟨s, f, 0, hr, hf, hst, hget, hresp, ?_⟩
  rw [((inv_reachable hr).blocks () f hf).resp 0 hresp, hreceived]
  intro hsame
  have hlen := congrArg List.length (Option.some.inj hsame)
  rw [List.length_take, List.length_replicate] at hlen
  exact absurd hlen (by decide)

end SitNChow.Http
