/-
A session as the WebSocket client delivers it: messages in frames, frames
in chunks, and what is in the buffer at the stop.

# Delivery

`Recv` is the loop of `esp_websocket_client_recv` over one frame: chunks
with the offset reached, the last one ending the frame. A message is a
first frame and continuation frames, which carry opcode 0 and which the
handler ignores, so what it receives of a session is its first frames
(`Delivered.foldl`).

# The two laws and where they stop

The buffer of two deliveries of the same messages is the same exactly
when their first frames spell the same bytes (`framing_irrelevant_iff`).
A session of single frames is cut off at the first message that does not
fit exactly when no later one fits into the space left
(`overlong_cut_iff`).
-/
import SitNChow.Audio.Receive

namespace SitNChow.Intercom

open Kit

-- ============================================================ deliveries

/-- The data events of one frame from offset `off` on: chunks until the
frame is over. -/
inductive Recv (opCode : Nat) (p : List UInt8) : Nat → List WsEvent → Prop
  | last {off : Nat} : off ≤ p.length →
      Recv opCode p off [.data ⟨opCode, off, p.length, p.drop off⟩]
  | more {off : Nat} {c : List UInt8} {es : List WsEvent} :
      c <+: p.drop off → off + c.length < p.length →
      Recv opCode p (off + c.length) es →
      Recv opCode p off (.data ⟨opCode, off, p.length, c⟩ :: es)

/-- The continuation frames of a message. -/
inductive Continued : List (List UInt8) → List WsEvent → Prop
  | nil : Continued [] []
  | cons {p : List UInt8} {ps : List (List UInt8)} {es es' : List WsEvent} :
      Recv 0 p 0 es → Continued ps es' → Continued (p :: ps) (es ++ es')

/-- A binary message, as the frames it is sent in. -/
structure Message where
  first : List UInt8
  rest : List (List UInt8)

/-- What the message says. -/
def Message.payload (m : Message) : List UInt8 := m.first ++ m.rest.flatten

/-- Every frame of the message is of even length. -/
def Message.Even (m : Message) : Prop :=
  m.first.length % 2 = 0 ∧ ∀ p ∈ m.rest, p.length % 2 = 0

/-- The data events of the messages of a session. -/
inductive Delivered : List Message → List WsEvent → Prop
  | nil : Delivered [] []
  | cons {m : Message} {ms : List Message} {es es' es'' : List WsEvent} :
      Recv 2 m.first 0 es → Continued m.rest es' → Delivered ms es'' →
      Delivered (m :: ms) (es ++ es' ++ es'')

/-- `s_psram_buf[0 .. s_psram_samples)`, in bytes. -/
def State.buffered (s : State) : List UInt8 :=
  load s.psramBuf (2 * s.psramSamples)

-- ================================================== receiving a delivery

variable {p : List UInt8} {off : Nat} {es : List WsEvent} {r : Received}
  {ms : List (List UInt8)} {ds : List Message}

/-- A frame of opcode 2 is a message received. -/
theorem Recv.foldl (h : Recv 2 p off es) (heven : p.length % 2 = 0)
    (hoff : off ≤ p.length) (hlate : 0 < off → r.sessionOpen = true)
    (hopen : r.sessionOpen = true → Holds ms r ∧ Copied p off ms r) :
    Holds (r.since ms ++ [p]) (es.foldl Received.receive r) := by
  induction h generalizing r ms with
  | @last off hle =>
      have hdone := (Received.chunk hlate hopen heven hoff
        (List.prefix_rfl (l := p.drop off))).2
      refine hdone ?_
      rw [List.length_drop]
      omega
  | @more off c es hc hlt _ ih =>
      obtain ⟨hholds, hcopied⟩ :=
        (Received.chunk hlate hopen heven hoff hc).1 hlt
      have hsince : (r.receive (.data (chunkEvent p off c))).since (r.since ms)
          = r.since ms := if_pos hholds.isOpen
      have hrest := ih (Nat.le_of_lt hlt) (fun _ => hholds.isOpen)
        (fun _ => ⟨hholds, hcopied⟩)
      rw [hsince] at hrest
      exact hrest

/-- A frame of opcode 0 is ignored. -/
theorem Recv.foldl_zero (h : Recv 0 p off es) :
    es.foldl Received.receive r = r := by
  induction h with
  | last _ => rfl
  | more _ _ _ ih => exact ih

theorem Continued.foldl {ps : List (List UInt8)} (h : Continued ps es) :
    es.foldl Received.receive r = r := by
  induction h with
  | nil => rfl
  | cons hframe _ ih => rw [List.foldl_append, hframe.foldl_zero, ih]

/-- One message, of which the first frame is received. -/
theorem Recv.message {m : Message} {es' : List WsEvent}
    (h : Recv 2 m.first 0 es) (hrest : Continued m.rest es')
    (heven : m.first.length % 2 = 0)
    (hopen : r.sessionOpen = true → Holds ms r) :
    Holds (r.since ms ++ [m.first]) ((es ++ es').foldl Received.receive r) := by
  rw [List.foldl_append, hrest.foldl]
  exact h.foldl heven (Nat.zero_le _)
    (fun hpos => absurd hpos (Nat.lt_irrefl 0))
    (fun ho => ⟨hopen ho, (hopen ho).copied⟩)

/-- The messages of an open session. -/
theorem Delivered.foldl_open (h : Delivered ds es)
    (heven : ∀ m ∈ ds, m.first.length % 2 = 0) (hholds : Holds ms r) :
    Holds (ms ++ ds.map (·.first)) (es.foldl Received.receive r) := by
  induction h generalizing r ms with
  | nil => simpa using hholds
  | cons hfirst hrest _ ih =>
      obtain ⟨heven, hevens⟩ := List.forall_mem_cons.mp heven
      have hnext := hfirst.message hrest heven (fun _ => hholds)
      rw [Received.since, if_pos hholds.isOpen] at hnext
      rw [List.foldl_append, List.map_cons, List.append_cons]
      exact ih hevens hnext

/-- What is received of a session are its first frames. -/
theorem Delivered.foldl (h : Delivered ds es) (hne : ds ≠ [])
    (heven : ∀ m ∈ ds, m.first.length % 2 = 0) (hclosed : r.sessionOpen = false) :
    Holds (ds.map (·.first)) (es.foldl Received.receive r) := by
  cases h with
  | nil => exact absurd rfl hne
  | cons hfirst hrest hmore =>
      obtain ⟨heven, hevens⟩ := List.forall_mem_cons.mp heven
      have hno : r.sessionOpen = true → Holds [] r := fun ho =>
        nomatch hclosed.symm.trans ho
      have hnew := hfirst.message hrest heven hno
      rw [Received.since, if_neg (by simp [hclosed])] at hnew
      rw [List.foldl_append]
      exact hmore.foldl_open hevens hnew

-- ============================================================ at the stop

variable {s s' s₁ s₁' s₂ s₂' : State} {acts acts₁ acts₂ : List Action}
  {stop stop₁ stop₂ : DataEvent}

/-- The stop finds the handler idle and leaves the buffer alone. -/
theorem State.buffered_stop (hstop : stop.isStop = true)
    (happ : s.event (.data stop) = some s') :
    s'.buffered = load s.settled.buf (2 * s.settled.samples) := by
  obtain ⟨hidle, ⟨hd, -⟩ | ⟨d, hd, hbin, -⟩ | ⟨d, -, -, -, rfl⟩ | ⟨-, hdata, -⟩⟩ :=
    State.event_cases happ
  · cases hd
  · cases hd
    simp [DataEvent.isStop, hbin] at hstop
  · rw [State.settled_idle hidle]
    unfold State.stop
    split <;> rfl
  · cases hstop.symm.trans (hdata stop rfl).2

/-- What is buffered at the stop of a run is what its events leave. -/
theorem State.buffered_run (hstop : stop.isStop = true)
    (hrun : intercom.run s (acts ++ [.event (.data stop)]) = some s') :
    s'.buffered
      = load ((acts.filterMap Action.received).foldl Received.receive
            s.settled).buf
          (2 * ((acts.filterMap Action.received).foldl Received.receive
            s.settled).samples) := by
  obtain ⟨s₁, hrun₁, hlast⟩ := Machine.run_append.mp hrun
  obtain ⟨s₂, happ, hend⟩ := Machine.run_cons_inv hlast
  obtain rfl := Option.some.inj hend
  rw [State.buffered_stop hstop happ, State.settled_run hrun₁]

/-- A session closed at its start has buffered, at its stop, those of its
first frames that fitted. -/
theorem Delivered.buffered (hd : Delivered ds (acts.filterMap Action.received))
    (hne : ds ≠ []) (heven : ∀ m ∈ ds, m.first.length % 2 = 0)
    (hclosed : s.sessionOpen = false) (hstop : stop.isStop = true)
    (hrun : intercom.run s (acts ++ [.event (.data stop)]) = some s') :
    s'.buffered = (kept (ds.map (·.first))).flatten := by
  have hflag : s.settled.sessionOpen = false := by
    unfold State.settled
    split <;> exact hclosed
  rw [State.buffered_run hstop hrun]
  exact (hd.foldl hne heven hflag).audio

-- ================================================================ framing

/-- First frames fit where whole messages do. -/
theorem firsts_length_le (ds : List Message) :
    (ds.map (·.first)).flatten.length ≤ (ds.map (·.payload)).flatten.length := by
  induction ds with
  | nil => exact Nat.le_refl _
  | cons m ds ih =>
      have hm : m.first.length ≤ m.payload.length := by
        simp [Message.payload]
      simp only [List.map_cons, List.flatten_cons, List.length_append]
      omega

/-- The first frames spell the session exactly when nothing is in the
others. -/
theorem firsts_eq_iff (ds : List Message) :
    (ds.map (·.first)).flatten = (ds.map (·.payload)).flatten
      ↔ ∀ m ∈ ds, m.rest.flatten = [] := by
  induction ds with
  | nil => simp
  | cons m ds ih =>
      have hle := firsts_length_le ds
      have hm : m.payload = m.first ++ m.rest.flatten := rfl
      rw [List.forall_mem_cons, ← ih, List.map_cons, List.map_cons,
        List.flatten_cons, List.flatten_cons, hm, List.append_assoc,
        List.append_cancel_left_eq]
      refine ⟨fun h => ?_, fun ⟨h, hrest⟩ => ?_⟩
      · have hlen := congrArg List.length h
        rw [List.length_append] at hlen
        have hnil : m.rest.flatten = [] :=
          List.eq_nil_of_length_eq_zero (by omega)
        exact ⟨hnil, by simpa [hnil] using h⟩
      · rw [h, hrest, List.nil_append]

/-- Two deliveries of one session of even frames that fits leave the same
audio in the buffer exactly when their first frames spell the same bytes;
one leaves the whole session there exactly when its continuation frames
are empty. A session without a message leaves the buffer as it was. -/
theorem framing_irrelevant_iff {ds₁ ds₂ : List Message}
    (hsame : ds₁.map (·.payload) = ds₂.map (·.payload))
    (heven₁ : ∀ m ∈ ds₁, m.Even) (heven₂ : ∀ m ∈ ds₂, m.Even)
    (hfits : (ds₁.map (·.payload)).flatten.length ≤ maxSessionBytes)
    (hclosed₁ : s₁.sessionOpen = false) (hclosed₂ : s₂.sessionOpen = false)
    (hempty : ds₁ = [] → s₁ = s₂)
    (hd₁ : Delivered ds₁ (acts₁.filterMap Action.received))
    (hd₂ : Delivered ds₂ (acts₂.filterMap Action.received))
    (hstop₁ : stop₁.isStop = true) (hstop₂ : stop₂.isStop = true)
    (hrun₁ : intercom.run s₁ (acts₁ ++ [.event (.data stop₁)]) = some s₁')
    (hrun₂ : intercom.run s₂ (acts₂ ++ [.event (.data stop₂)]) = some s₂') :
    (s₁'.buffered = s₂'.buffered
        ↔ (ds₁.map (·.first)).flatten = (ds₂.map (·.first)).flatten)
      ∧ (ds₁ ≠ [] → (s₁'.buffered = (ds₁.map (·.payload)).flatten
        ↔ ∀ m ∈ ds₁, m.rest.flatten = [])) := by
  by_cases hne : ds₁ = []
  · have hne₂ : ds₂ = [] := by
      rw [hne] at hsame
      exact List.map_eq_nil_iff.mp hsame.symm
    refine ⟨?_, fun hc => absurd hne hc⟩
    rw [State.buffered_run hstop₁ hrun₁, State.buffered_run hstop₂ hrun₂,
      hempty hne]
    rw [hne] at hd₁
    rw [hne₂] at hd₂
    generalize acts₁.filterMap Action.received = es₁ at hd₁
    generalize acts₂.filterMap Action.received = es₂ at hd₂
    cases hd₁
    cases hd₂
    simp [hne, hne₂]
  · have hne₂ : ds₂ ≠ [] := by
      rintro rfl
      exact hne (List.map_eq_nil_iff.mp hsame)
    have hfirst₁ := hd₁.buffered hne (fun m hm => (heven₁ m hm).1) hclosed₁
      hstop₁ hrun₁
    have hfirst₂ := hd₂.buffered hne₂ (fun m hm => (heven₂ m hm).1) hclosed₂
      hstop₂ hrun₂
    rw [kept_of_fits ((firsts_length_le ds₁).trans hfits)] at hfirst₁
    rw [kept_of_fits ((firsts_length_le ds₂).trans (hsame ▸ hfits))] at hfirst₂
    rw [hfirst₁, hfirst₂]
    exact ⟨Iff.rfl, fun _ => firsts_eq_iff ds₁⟩

/-- One message, as a single frame. -/
def whole : List Action := message [1, 0, 2, 0]

/-- The same message, as two frames. -/
def inFrames : List Action :=
  message [1, 0] ++ [.event (.data ⟨0, 0, 2, [2, 0]⟩)]

/-- The same message, with an empty second frame. -/
def withEmptyFrame : List Action :=
  message [1, 0, 2, 0] ++ [.event (.data ⟨0, 0, 0, []⟩)]

theorem delivered_whole :
    Delivered [⟨[1, 0, 2, 0], []⟩] (whole.filterMap Action.received) := by
  show Delivered _ ([.data ⟨2, 0, 4, [1, 0, 2, 0]⟩] ++ [] ++ [])
  exact .cons (.last (Nat.zero_le 4)) .nil .nil

theorem delivered_withEmptyFrame :
    Delivered [⟨[1, 0, 2, 0], [[]]⟩]
      (withEmptyFrame.filterMap Action.received) := by
  show Delivered _ ([.data ⟨2, 0, 4, [1, 0, 2, 0]⟩]
    ++ ([.data ⟨0, 0, 0, []⟩] ++ []) ++ [])
  exact .cons (.last (Nat.zero_le 4)) (.cons (.last (Nat.zero_le 0)) .nil) .nil

/-- An empty continuation frame makes no difference. -/
theorem framing_irrelevant_empty :
    ∃ s₁ s₂ : State, intercom.run State.init (whole ++ [stopMessage]) = some s₁
      ∧ intercom.run State.init (withEmptyFrame ++ [stopMessage]) = some s₂
      ∧ s₁.buffered = s₂.buffered := by
  have hrun₁ : (intercom.run State.init (whole ++ [stopMessage])).isSome = true := by
    decide +kernel
  have hrun₂ : (intercom.run State.init
      (withEmptyFrame ++ [stopMessage])).isSome = true := by decide +kernel
  obtain ⟨s₁, hs₁⟩ := Option.isSome_iff_exists.mp hrun₁
  obtain ⟨s₂, hs₂⟩ := Option.isSome_iff_exists.mp hrun₂
  have hsame : [Message.mk [1, 0, 2, 0] []].map (·.payload)
      = [Message.mk [1, 0, 2, 0] [[]]].map (·.payload) := rfl
  refine ⟨s₁, s₂, hs₁, hs₂, ?_⟩
  refine (framing_irrelevant_iff hsame ?_ ?_ (by decide) rfl rfl (fun _ => rfl)
    delivered_whole delivered_withEmptyFrame (by decide) (by decide) hs₁
    hs₂).1.mpr rfl
  · simp [Message.Even]
  · simp [Message.Even]

/-- In two frames the second half of the message is lost. -/
theorem framing_matters :
    Delivered [⟨[1, 0, 2, 0], []⟩] (whole.filterMap Action.received)
      ∧ Delivered [⟨[1, 0], [[2, 0]]⟩] (inFrames.filterMap Action.received)
      ∧ (intercom.run State.init (whole ++ [stopMessage])).map (·.buffered)
        = some [1, 0, 2, 0]
      ∧ (intercom.run State.init (inFrames ++ [stopMessage])).map (·.buffered)
        = some [1, 0] := by
  refine ⟨delivered_whole, ?_, ?_, ?_⟩
  · show Delivered _ ([.data ⟨2, 0, 2, [1, 0]⟩]
      ++ ([.data ⟨0, 0, 2, [2, 0]⟩] ++ []) ++ [])
    exact .cons (.last (Nat.zero_le 2)) (.cons (.last (Nat.zero_le 2)) .nil) .nil
  · decide +kernel
  · decide +kernel

-- ========================================================= overlong talks

/-- After the first message that does not fit, no later one that is not
empty fits into the space left. -/
def Gapless (ms : List (List UInt8)) : Prop :=
  ∀ pre m post, ms = pre ++ m :: post →
    pre.flatten.length ≤ maxSessionBytes →
    maxSessionBytes < pre.flatten.length + m.length →
    ∀ m' ∈ post, m' = [] ∨ maxSessionBytes < pre.flatten.length + m'.length

/-- More messages add to what is kept. -/
theorem kept_grows (ms post : List (List UInt8)) :
    kept ms <+: kept (ms ++ post) := by
  induction post using List.reverseRecOn with
  | nil => rw [List.append_nil]
  | append_singleton post m ih =>
      rw [← List.append_assoc, kept_concat]
      unfold keep
      split
      · exact ih.trans (List.prefix_append _ _)
      · exact ih

/-- Messages that are empty or do not fit add no byte. -/
theorem kept_flatten_of_full {ms post : List (List UInt8)}
    (h : ∀ m ∈ post, m = [] ∨ maxSessionBytes < (kept ms).flatten.length + m.length) :
    (kept (ms ++ post)).flatten = (kept ms).flatten := by
  induction post using List.reverseRecOn with
  | nil => rw [List.append_nil]
  | append_singleton post m ih =>
      have ih := ih fun m' hm' => h m' (List.mem_append_left _ hm')
      rw [← List.append_assoc, kept_concat]
      rcases h m (by simp) with rfl | hfull
      · unfold keep
        split
        · simpa using ih
        · exact ih
      · rw [keep_of_full (ih ▸ hfull), ih]

/-- A session that does not fit has a first message that does not. -/
theorem exists_first_refused {ms : List (List UInt8)}
    (h : maxSessionBytes < ms.flatten.length) :
    ∃ pre m post, ms = pre ++ m :: post ∧ pre.flatten.length ≤ maxSessionBytes
      ∧ maxSessionBytes < pre.flatten.length + m.length := by
  induction ms using List.reverseRecOn with
  | nil => exact absurd h (Nat.not_lt_zero _)
  | append_singleton ms m ih =>
      by_cases hms : maxSessionBytes < ms.flatten.length
      · obtain ⟨pre, m', post, rfl, hpre, hm'⟩ := ih hms
        exact ⟨pre, m', post ++ [m], by simp, hpre, hm'⟩
      · refine ⟨ms, m, [], rfl, Nat.le_of_not_lt hms, ?_⟩
        simpa using h

/-- A session cut at its first refused message keeps what comes before
it. -/
theorem kept_flatten_cut {pre post : List (List UInt8)} {m : List UInt8}
    (hpre : pre.flatten.length ≤ maxSessionBytes)
    (hm : maxSessionBytes < pre.flatten.length + m.length)
    (hpost : ∀ m' ∈ post,
      m' = [] ∨ maxSessionBytes < pre.flatten.length + m'.length) :
    (kept (pre ++ m :: post)).flatten = pre.flatten := by
  have hkept := kept_of_fits hpre
  have hfull : ∀ m' ∈ m :: post,
      m' = [] ∨ maxSessionBytes < (kept pre).flatten.length + m'.length := by
    rw [hkept]
    exact List.forall_mem_cons.mpr ⟨.inr hm, hpost⟩
  rw [kept_flatten_of_full hfull, hkept]

/-- A gapless session keeps, from any refused message on, what it had. -/
theorem Gapless.kept_refused {pre post : List (List UInt8)} {m : List UInt8}
    (h : Gapless (pre ++ m :: post))
    (hm : maxSessionBytes < (kept pre).flatten.length + m.length) :
    (kept (pre ++ m :: post)).flatten = (kept pre).flatten := by
  by_cases hpre : pre.flatten.length ≤ maxSessionBytes
  · have hkept := kept_of_fits hpre
    rw [hkept] at hm ⊢
    exact kept_flatten_cut hpre hm (h pre m post rfl hpre hm)
  · -- an earlier message was the first to be refused
    obtain ⟨first, m₀, mid, rfl, hfirst, hm₀⟩ :=
      exists_first_refused (Nat.lt_of_not_le hpre)
    have hlater := h first m₀ (mid ++ m :: post) (by simp) hfirst hm₀
    rw [List.append_assoc, List.cons_append,
      kept_flatten_cut hfirst hm₀ hlater, kept_flatten_cut hfirst hm₀]
    exact fun m' hm' => hlater m' (List.mem_append_left _ hm')

theorem Gapless.kept_isPrefix {ms : List (List UInt8)} (h : Gapless ms) :
    (kept ms).flatten <+: ms.flatten := by
  by_cases hfits : ms.flatten.length ≤ maxSessionBytes
  · rw [kept_of_fits hfits]
  · obtain ⟨pre, m, post, rfl, hpre, hm⟩ :=
      exists_first_refused (Nat.lt_of_not_le hfits)
    rw [kept_flatten_cut hpre hm (h pre m post rfl hpre hm), List.flatten_append]
    exact List.prefix_append _ _

theorem kept_length_le (ms post : List (List UInt8)) :
    (kept ms).flatten.length ≤ (kept (ms ++ post)).flatten.length := by
  obtain ⟨more, hmore⟩ := kept_grows ms post
  simp [← hmore]

/-- If nothing is kept after a refused message, the session is gapless. -/
theorem gapless_of_kept {ms : List (List UInt8)}
    (h : ∀ pre m post, ms = pre ++ m :: post →
      maxSessionBytes < (kept pre).flatten.length + m.length →
      (kept ms).flatten = (kept pre).flatten) : Gapless ms := by
  intro pre m post hms hpre hm m' hm'
  have hkept := kept_of_fits hpre
  have hcut := congrArg List.length (h pre m post hms (hkept.symm ▸ hm))
  obtain ⟨mid, rest, rfl⟩ := List.append_of_mem hm'
  by_contra hfits
  rw [not_or, Nat.not_lt] at hfits
  -- what is kept before `m'` and with it lies between `pre` and the whole
  have hall : ms = pre ++ m :: mid ++ [m'] ++ rest := by simp [hms]
  have hbefore := kept_length_le pre (m :: mid)
  have hwith := kept_length_le (pre ++ m :: mid) [m']
  have hwhole := kept_length_le (pre ++ m :: mid ++ [m']) rest
  rw [← hall, hcut] at hwhole
  have hroom : (kept (pre ++ m :: mid)).flatten.length + m'.length
      ≤ maxSessionBytes := by
    rw [hkept] at hwhole
    omega
  rw [kept_concat, keep_of_fits hroom] at hwhole
  simp only [List.flatten_append, List.flatten_singleton, List.length_append]
    at hwhole
  exact hfits.1 (List.eq_nil_of_length_eq_zero (by omega))

/-- A message in a single frame. -/
def Message.single (m : List UInt8) : Message := ⟨m, []⟩

/-- The buffer at the stop of a session of single frames of even length
is what was kept of it; it is the session cut at the first message
refused, with nothing of a later message behind it, exactly when the
session is gapless. -/
theorem overlong_cut_iff {ms : List (List UInt8)} (hne : ms ≠ [])
    (heven : ∀ m ∈ ms, m.length % 2 = 0) (hclosed : s.sessionOpen = false)
    (hd : Delivered (ms.map .single) (acts.filterMap Action.received))
    (hstop : stop.isStop = true)
    (hrun : intercom.run s (acts ++ [.event (.data stop)]) = some s') :
    s'.buffered = (kept ms).flatten
      ∧ ((s'.buffered <+: ms.flatten
          ∧ ∀ pre m post, ms = pre ++ m :: post →
            maxSessionBytes < (kept pre).flatten.length + m.length →
            s'.buffered = (kept pre).flatten)
        ↔ Gapless ms) := by
  have hfirsts : (ms.map Message.single).map (·.first) = ms := by
    rw [List.map_map]
    exact List.map_id ms
  have hbuf : s'.buffered = (kept ms).flatten := by
    rw [hd.buffered (by simpa using hne) ?_ hclosed hstop hrun, hfirsts]
    intro m hm
    obtain ⟨p, hp, rfl⟩ := List.mem_map.mp hm
    exact heven p hp
  refine ⟨hbuf, ?_⟩
  rw [hbuf]
  refine ⟨fun ⟨_, hrefused⟩ => gapless_of_kept hrefused, fun h => ?_⟩
  refine ⟨h.kept_isPrefix, ?_⟩
  rintro pre m post rfl hm
  exact h.kept_refused hm

-- ============================================== a run for every delivery

/-- The handler finishes its copy by itself. -/
theorem State.exists_idle (s : State) :
    ∃ acts s', intercom.run s acts = some s'
      ∧ acts.filterMap Action.received = [] ∧ s'.handler = .idle := by
  cases hh : s.handler with
  | idle => exact ⟨[], s, rfl, rfl, hh⟩
  | copy dst rest samples =>
      induction rest generalizing s dst with
      | nil =>
          have happ : intercom.apply .handler s = some { s with
              psramSamples := s.psramSamples + samples.getD 0
              handler := .idle } := by
            simp only [intercom, State.handlerStep, hh]
          exact ⟨[.handler], _, Machine.run_cons happ, rfl, rfl⟩
      | cons b rest ih =>
          have happ : intercom.apply .handler s = some { s with
              psramBuf := fun pos => if pos = dst then b else s.psramBuf pos
              handler := .copy (dst + 1) rest samples } := by
            simp only [intercom, State.handlerStep, hh]
          obtain ⟨acts, s', hrun, hnone, hidle⟩ := ih { s with
              psramBuf := fun pos => if pos = dst then b else s.psramBuf pos
              handler := .copy (dst + 1) rest samples } (dst + 1) rfl
          exact ⟨.handler :: acts, s', (Machine.run_cons happ).trans hrun, hnone,
            hidle⟩

/-- The idle handler takes any event. -/
theorem State.exists_event (h : s.handler = .idle) (e : WsEvent) :
    ∃ s', intercom.apply (.event e) s = some s' := by
  show ∃ s', s.event e = some s'
  unfold State.event
  rw [h]
  cases e with
  | data d =>
      dsimp only
      split
      · exact ⟨_, rfl⟩
      · split <;> exact ⟨_, rfl⟩
  | connected | disconnected | error | other => exact ⟨_, rfl⟩

/-- Every list of events can arrive. -/
theorem State.exists_run (s : State) (es : List WsEvent) :
    ∃ acts s', intercom.run s acts = some s'
      ∧ acts.filterMap Action.received = es ∧ s'.handler = .idle := by
  induction es generalizing s with
  | nil => exact s.exists_idle
  | cons e es ih =>
      obtain ⟨acts₁, s₁, hrun₁, hnone, hidle⟩ := s.exists_idle
      obtain ⟨s₂, happ⟩ := State.exists_event hidle e
      obtain ⟨acts₂, s₃, hrun₂, hes, hidle₃⟩ := ih s₂
      refine ⟨acts₁ ++ .event e :: acts₂, s₃, ?_, ?_, hidle₃⟩
      · exact Machine.run_append.mpr
          ⟨s₁, hrun₁, (Machine.run_cons happ).trans hrun₂⟩
      · rw [List.filterMap_append, hnone, ← hes]
        rfl

/-- Messages in single frames of one chunk each, then a stop. -/
theorem exists_session (ms : List (List UInt8)) :
    ∃ acts s', Delivered (ms.map .single) (acts.filterMap Action.received)
      ∧ intercom.run State.init (acts ++ [stopMessage]) = some s' := by
  obtain ⟨acts, s₁, hrun, hes, hidle⟩ := State.init.exists_run
    (ms.map fun m => .data ⟨2, 0, m.length, m⟩)
  obtain ⟨s', hstop⟩ := State.exists_event hidle (.data ⟨1, 0, 4, cstr "stop"⟩)
  refine ⟨acts, s', ?_,
    Machine.run_append.mpr ⟨s₁, hrun, (Machine.run_cons hstop).trans rfl⟩⟩
  rw [hes]
  clear hes hrun
  induction ms with
  | nil => exact .nil
  | cons m ms ih =>
      show Delivered _ ([.data ⟨2, 0, m.length, m.drop 0⟩] ++ [] ++ _)
      exact .cons (.last (Nat.zero_le _)) .nil ih

/-- A long message, and two that do not fit behind it. -/
def overlong (long : List UInt8) : List (List UInt8) :=
  [long, [1, 1, 1, 1], [2, 2, 2, 2]]

theorem gapless_overlong {long : List UInt8} (h : long.length = 511998) :
    Gapless (overlong long) := by
  intro pre m post hms hpre hm m' hm'
  rcases pre with _ | ⟨a, _ | ⟨b, pre⟩⟩
  · -- the long message is not refused
    obtain ⟨rfl, -⟩ := List.cons.inj hms
    simp [h, maxSessionBytes] at hm
  · obtain ⟨rfl, hrest⟩ := List.cons.inj hms
    obtain ⟨rfl, rfl⟩ := List.cons.inj hrest
    obtain rfl := List.mem_singleton.mp hm'
    simp [h, maxSessionBytes]
  · -- the last message has none behind it
    have hlen := congrArg List.length hms
    simp only [overlong, List.length_append, List.length_cons,
      List.length_nil] at hlen
    have hpost : post = [] := List.eq_nil_of_length_eq_zero (by omega)
    rw [hpost] at hm'
    cases hm'

/-- Almost 16 s of silence and two messages that are refused: the silence
is buffered. -/
theorem overlong_cut_short :
    ∃ s' : State, s'.buffered = List.replicate 511998 0
      ∧ s'.buffered <+: (overlong (List.replicate 511998 0)).flatten := by
  -- only the length of the silence matters
  suffices h : ∀ long : List UInt8, long.length = 511998 →
      ∃ s' : State, s'.buffered = long
        ∧ s'.buffered <+: (overlong long).flatten from
    h _ List.length_replicate
  intro long hlong
  obtain ⟨acts, s', hd, hrun⟩ := exists_session (overlong long)
  obtain ⟨hpre, hcut⟩ := (overlong_cut_iff (by simp [overlong])
    (by simp [overlong, hlong]) rfl hd (by decide) hrun).2.mpr
      (gapless_overlong hlong)
  have hkept : kept [long] = [long] :=
    keep_of_fits (by simp [hlong, maxSessionBytes])
  refine ⟨s', ?_, hpre⟩
  rw [hcut [long] [1, 1, 1, 1] [[2, 2, 2, 2]] rfl ?_, hkept]
  · simp
  · rw [hkept]
    simp [hlong, maxSessionBytes]

/-- A long message, one that does not fit behind it, and one that does. -/
def spliced (long : List UInt8) : List (List UInt8) :=
  [long, [1, 1, 1, 1], [2, 2]]

theorem kept_spliced {long : List UInt8} (h : long.length = 511998) :
    kept (spliced long) = [long, [2, 2]] := by
  have h₁ : keep [] long = [long] := keep_of_fits (by simp [h, maxSessionBytes])
  have h₂ : keep [long] [1, 1, 1, 1] = [long] :=
    keep_of_full (by simp [h, maxSessionBytes])
  have h₃ : keep [long] [2, 2] = [long, [2, 2]] :=
    keep_of_fits (by simp [h, maxSessionBytes])
  show keep (keep (keep [] long) [1, 1, 1, 1]) [2, 2] = _
  rw [h₁, h₂, h₃]

/-- The third message is appended where the second is missing. -/
theorem spliced_not_cut {long : List UInt8} (hlong : long.length = 511998) :
    ∃ acts s', Delivered ((spliced long).map .single)
        (acts.filterMap Action.received)
      ∧ (∀ m ∈ spliced long, m.length % 2 = 0)
      ∧ intercom.run State.init (acts ++ [stopMessage]) = some s'
      ∧ s'.buffered = long ++ [2, 2]
      ∧ ¬ s'.buffered <+: (spliced long).flatten := by
  have heven : ∀ m ∈ spliced long, m.length % 2 = 0 := by
    simp [spliced, hlong]
  obtain ⟨acts, s', hd, hrun⟩ := exists_session (spliced long)
  have hbuf : s'.buffered = long ++ [2, 2] := by
    rw [hd.buffered (by simp [spliced]) (by simpa [Message.single] using heven)
      rfl (by decide) hrun]
    show (kept (spliced long)).flatten = _
    rw [kept_spliced hlong]
    simp
  refine ⟨acts, s', hd, heven, hrun, hbuf, ?_⟩
  rw [hbuf]
  show ¬ long ++ [2, 2] <+: long ++ [1, 1, 1, 1, 2, 2]
  rw [List.prefix_append_right_inj]
  decide

/-- Almost 16 s of silence, and two short messages. -/
theorem overlong_spliced :
    ∃ acts s', Delivered ((spliced (List.replicate 511998 0)).map .single)
        (acts.filterMap Action.received)
      ∧ (∀ m ∈ spliced (List.replicate 511998 0), m.length % 2 = 0)
      ∧ intercom.run State.init (acts ++ [stopMessage]) = some s'
      ∧ s'.buffered = List.replicate 511998 0 ++ [2, 2]
      ∧ ¬ s'.buffered <+: (spliced (List.replicate 511998 0)).flatten :=
  spliced_not_cut List.length_replicate

end SitNChow.Intercom
