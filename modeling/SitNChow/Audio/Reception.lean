/-
The intercom under the events its WebSocket client can deliver
(`esp_websocket_client_recv`), and that what it keeps is exact.

# The client

A binary message is one frame of even length. The client reads it in
chunks and reports each with the frame's length and the offset reached,
until the offset has reached the length; a read may bring nothing. Other
data events come between frames, everything else at any time, and a
disconnection abandons the frame being read.

# The ghost record

`Recorder` is told what the client delivers and knows nothing of the
intercom: which messages are complete since the session started, and the
messages of every session stopped. `Receives` ties the two together.
-/
import SitNChow.Audio.Receive

namespace SitNChow.Intercom

open Kit

-- ============================================================= the record

/-- The messages completed since the session started, and those of every
session stopped, oldest first. -/
structure Recorder where
  isOpen : Bool
  session : List (List UInt8)
  stopped : List (List (List UInt8))
deriving DecidableEq

/-- A chunk of a message arrives: it starts a session unless one is
open. -/
def Recorder.begun (rec : Recorder) : Recorder :=
  if rec.isOpen then rec else { rec with isOpen := true, session := [] }

/-- A message is complete. -/
def Recorder.completed (rec : Recorder) (m : List UInt8) : Recorder :=
  { rec with session := rec.session ++ [m] }

/-- An event other than a chunk of a message. -/
def Recorder.event (rec : Recorder) : WsEvent → Recorder
  | .disconnected => { rec with isOpen := false, session := [] }
  | .data d =>
      if d.isStop && rec.isOpen then
        { rec with isOpen := false, stopped := rec.stopped ++ [rec.session] }
      else rec
  | .connected | .error | .other => rec

-- ============================================================= the client

/-- A frame being read. -/
structure Frame where
  payload : List UInt8
  offset : Nat
deriving DecidableEq

/-- The intercom, the frame its client is reading, and the record. -/
structure Reception where
  intercom : State
  frame : Option Frame
  recorder : Recorder

/-- The client finds the next binary frame, reports at most `n` bytes of
it, or something else happens. -/
inductive Delivery where
  | frame (payload : List UInt8)
  | chunk (n : Nat)
  | own (a : Action)

/-- A data event is delivered between frames, and is no binary one. -/
def Reception.delivers (s : Reception) : Action → Bool
  | .event (.data d) => s.frame.isNone && d.opCode != 2
  | .event _ | .handler | .session | .playback => true

/-- The frame being read after an action of the intercom. -/
def Reception.frameAfter (s : Reception) : Action → Option Frame
  | .event .disconnected => none
  | _ => s.frame

/-- One more chunk of a frame. -/
def Reception.chunk (s : Reception) (f : Frame) (c : List UInt8) :
    Option Reception :=
  (s.intercom.event (.data (chunkEvent f.payload f.offset c))).map fun i =>
    if f.offset + c.length < f.payload.length then
      ⟨i, some ⟨f.payload, f.offset + c.length⟩, s.recorder.begun⟩
    else ⟨i, none, s.recorder.begun.completed f.payload⟩

/-- The intercom with its client. -/
def reception : Machine Reception Delivery where
  init := ⟨State.init, none, ⟨false, [], []⟩⟩
  apply
    | .frame payload, s =>
        if s.frame = none ∧ payload.length % 2 = 0 then
          some { s with frame := some ⟨payload, 0⟩ }
        else none
    | .chunk n, s =>
        match s.frame with
        | none => none
        | some f => s.chunk f ((f.payload.drop f.offset).take n)
    | .own a, s =>
        if s.delivers a then
          (intercom.apply a s.intercom).map fun i =>
            ⟨i, s.frameAfter a, a.received.elim s.recorder s.recorder.event⟩
        else none

-- ========================================================== the invariant

/-- What a stopped session is to have buffered. -/
def keptAudio (ms : List (List UInt8)) : List Sample :=
  samplesOf (kept ms).flatten

/-- The frame being read lies behind the messages kept. -/
structure Reading (f : Frame) (rec : Recorder) (r : Received) : Prop where
  even : f.payload.length % 2 = 0
  offset : f.offset ≤ f.payload.length
  late : 0 < f.offset → rec.isOpen = true
  copied : rec.isOpen = true → Copied f.payload f.offset rec.session r

/-- The intercom has received what the record says. -/
structure Recorded (rec : Recorder) (r : Received) : Prop where
  flag : r.sessionOpen = rec.isOpen
  bound : r.samples * 2 ≤ maxSessionBytes
  holds : rec.isOpen = true → Holds rec.session r
  stopped : r.stopped = rec.stopped.map keptAudio

/-- The handler's copy ends inside the buffer. -/
def State.InBounds (s : State) : Prop :=
  ∀ dst rest samples, s.handler = .copy dst rest samples →
    dst + rest.length ≤ maxSessionBytes

/-- The invariant: the settled state is recorded, the frame being read is
copied as far as it has come, and the copy is within the buffer. -/
structure Receives (s : Reception) : Prop where
  recorded : Recorded s.recorder s.intercom.settled
  reading : ∀ f, s.frame = some f → Reading f s.recorder s.intercom.settled
  inBounds : s.intercom.InBounds

/-- Before the first frame nothing is received. -/
theorem receives_init : Receives reception.init where
  recorded := ⟨rfl, Nat.zero_le _, fun h => (nomatch h), rfl⟩
  reading := fun _ h => nomatch h
  inBounds := fun _ _ _ h => nomatch h

variable {rec : Recorder} {r : Received} {f : Frame} {c : List UInt8}

/-- An open session that holds its messages is within the buffer. -/
theorem Holds.bound {ms : List (List UInt8)} (h : Holds ms r) :
    r.samples * 2 ≤ maxSessionBytes :=
  h.count ▸ kept_length ms

/-- A stop records what the session holds, and everything else leaves it
alone. -/
theorem Recorded.event (h : Recorded rec r) {e : WsEvent}
    (he : ∀ d, e = .data d → d.opCode ≠ 2) :
    Recorded (rec.event e) (r.receive e) := by
  cases e with
  | connected | error | other => exact h
  | disconnected => exact ⟨rfl, Nat.zero_le _, fun ho => (nomatch ho), h.stopped⟩
  | data d =>
      unfold Received.receive Recorder.event
      dsimp only
      rw [if_neg (he d rfl)]
      by_cases hstop : d.isStop = true
      · rw [if_pos hstop]
        unfold Received.stop
        by_cases hopen : rec.isOpen = true
        · rw [if_pos (h.flag.trans hopen), if_pos (by simp [hstop, hopen])]
          refine ⟨rfl, h.bound, fun ho => (nomatch ho), ?_⟩
          show r.stopped ++ [samplesOf (load r.buf (2 * r.samples))]
            = (rec.stopped ++ [rec.session]).map keptAudio
          rw [h.stopped, (h.holds hopen).audio, List.map_append]
          rfl
        · have hclosed : ¬ r.sessionOpen = true := h.flag ▸ hopen
          rw [if_neg hclosed, if_neg (by simp [hopen])]
          exact h
      · rw [if_neg hstop, if_neg (by simp [hstop])]
        exact h

/-- A chunk of the frame being read: the frame is copied that much
further, or its message is complete. -/
theorem Recorded.chunk (h : Recorded rec r) (hf : Reading f rec r)
    (hc : c <+: f.payload.drop f.offset) :
    (f.offset + c.length < f.payload.length →
        Recorded rec.begun
            (r.receive (.data (chunkEvent f.payload f.offset c)))
          ∧ Reading ⟨f.payload, f.offset + c.length⟩ rec.begun
            (r.receive (.data (chunkEvent f.payload f.offset c))))
      ∧ (f.payload.length ≤ f.offset + c.length →
        Recorded (rec.begun.completed f.payload)
          (r.receive (.data (chunkEvent f.payload f.offset c)))) := by
  have hsince : r.since rec.session = rec.begun.session := by
    unfold Received.since Recorder.begun
    rw [h.flag]
    split <;> rfl
  have hbegun : rec.begun.isOpen = true := by
    unfold Recorder.begun
    split
    · next ho => exact ho
    · rfl
  have hstopped : rec.begun.stopped = rec.stopped := by
    unfold Recorder.begun
    split <;> rfl
  have hopen : r.sessionOpen = true →
      Holds rec.session r ∧ Copied f.payload f.offset rec.session r := fun ho =>
    ⟨h.holds (h.flag ▸ ho), hf.copied (h.flag ▸ ho)⟩
  obtain ⟨hpart, hdone⟩ := Received.chunk
    (fun hpos => h.flag.trans (hf.late hpos)) hopen hf.even hf.offset hc
  rw [hsince] at hpart hdone
  refine ⟨fun hlt => ?_, fun hle => ?_⟩
  · obtain ⟨hholds, hcopied⟩ := hpart hlt
    refine ⟨⟨hholds.isOpen.trans hbegun.symm, hholds.bound, fun _ => hholds, ?_⟩,
      hf.even, Nat.le_of_lt hlt, fun _ => hbegun, fun _ => hcopied⟩
    rw [Received.stopped_chunk, h.stopped, hstopped]
  · have hholds := hdone hle
    refine ⟨hholds.isOpen.trans hbegun.symm, hholds.bound, fun _ => hholds, ?_⟩
    show _ = rec.begun.stopped.map keptAudio
    rw [Received.stopped_chunk, h.stopped, hstopped]

-- ============================================================ in the buffer

variable {s s' : State}

/-- Without a copy nothing is written. -/
theorem State.inBounds_idle (h : s.handler = .idle) : s.InBounds :=
  fun _ _ _ hh => nomatch h.symm.trans hh

/-- A binary event that passes the test of its message's size copies
within the buffer. -/
theorem State.inBounds_binary {d : DataEvent}
    (hd : d.payloadOffset + d.data.length ≤ d.payloadLen) :
    (s.binary d).InBounds := by
  intro dst rest samples hh
  have hh : (if s.startCount d * 2 + d.payloadLen > maxSessionBytes
      then HandlerPc.idle
      else .copy (s.startCount d * 2 + d.payloadOffset) d.data d.newSamples)
        = .copy dst rest samples := hh
  split at hh
  · cases hh
  · injection hh with hdst hrest
    rw [← hdst, ← hrest]
    omega

/-- A step that leaves the handler where it is. -/
theorem State.InBounds.congr (h : s.InBounds) (hs : s'.handler = s.handler) :
    s'.InBounds :=
  fun dst rest samples hh => h dst rest samples (hs ▸ hh)

/-- A step of the copy stays in the buffer. -/
theorem State.InBounds.handler (h : s.InBounds)
    (happ : s.handlerStep = some s') : s'.InBounds := by
  obtain ⟨dst, b, rest, samples, hh, rfl⟩ | ⟨dst, samples, hh, rfl⟩ :=
    State.handlerStep_cases happ
  · have hin := h dst (b :: rest) samples hh
    intro dst' rest' samples' hh'
    injection hh' with hdst hrest
    rw [← hdst, ← hrest]
    simp only [List.length_cons] at hin
    omega
  · exact State.inBounds_idle rfl

/-- An event that comes with at most the rest of its frame. -/
theorem State.inBounds_event {e : WsEvent}
    (he : ∀ d, e = .data d → d.opCode = 2 →
      d.payloadOffset + d.data.length ≤ d.payloadLen)
    (happ : s.event e = some s') : s'.InBounds := by
  obtain ⟨hidle, ⟨rfl, rfl⟩ | ⟨d, rfl, hbin, rfl⟩ | ⟨d, rfl, -, -, rfl⟩
    | ⟨-, -, rfl⟩⟩ := State.event_cases happ
  · exact State.inBounds_idle hidle
  · exact State.inBounds_binary (he d rfl hbin)
  · refine State.inBounds_idle ?_
    unfold State.stop
    split <;> exact hidle
  · exact State.inBounds_idle hidle

/-- The playing tasks leave the handler where it is. -/
theorem State.handler_session (happ : s.sessionStep = some s') :
    s'.handler = s.handler := by
  obtain ⟨trigger, pc, p, history, rfl, -⟩ := State.sessionStep_frame happ
  rfl

/-- And so does the playback. -/
theorem State.handler_playback (happ : s.playbackStep = some s') :
    s'.handler = s.handler := by
  obtain ⟨p, -, rfl⟩ := Option.map_eq_some_iff.mp happ
  rfl

/-- Every step keeps the writes in the buffer, if a chunk lies in its message.
-/
theorem State.InBounds.apply (h : s.InBounds) {a : Action}
    (he : ∀ d, a = .event (.data d) → d.opCode = 2 →
      d.payloadOffset + d.data.length ≤ d.payloadLen)
    (happ : intercom.apply a s = some s') : s'.InBounds := by
  cases a with
  | event e =>
      exact State.inBounds_event (fun d hd => he d (congrArg _ hd)) happ
  | handler => exact h.handler happ
  | session => exact h.congr (State.handler_session happ)
  | playback => exact h.congr (State.handler_playback happ)

-- ============================================================= over a run

variable {t t' : Reception}

/-- A further chunk of a frame is received. -/
theorem Receives.chunk (h : Receives t) (hf : t.frame = some f)
    (hc : c <+: f.payload.drop f.offset) (happ : t.chunk f c = some t') :
    Receives t' := by
  obtain ⟨i, hi, ht'⟩ := Option.map_eq_some_iff.mp happ
  have hread := h.reading f hf
  have hlen : f.offset + c.length ≤ f.payload.length := by
    have := hc.length_le
    have := hread.offset
    rw [List.length_drop] at *
    omega
  have hin : i.InBounds := by
    refine State.inBounds_event (fun d hd _ => ?_) hi
    injection hd with hd
    rw [← hd]
    exact hlen
  obtain ⟨hpart, hdone⟩ := h.recorded.chunk hread hc
  rw [← State.settled_event hi] at hpart hdone
  split at ht'
  · next hlt =>
    rw [← ht']
    refine ⟨(hpart hlt).1, fun g hg => ?_, hin⟩
    rw [← Option.some.inj hg]
    exact (hpart hlt).2
  · next hge =>
    rw [← ht']
    exact ⟨hdone (Nat.le_of_not_lt hge), fun _ hg => (nomatch hg), hin⟩

/-- A step of the intercom that is no chunk of a frame. -/
theorem Receives.own (h : Receives t) {a : Action}
    (happ : reception.apply (.own a) t = some t') : Receives t' := by
  have happ : (if t.delivers a then
      (intercom.apply a t.intercom).map fun i =>
        (⟨i, t.frameAfter a, a.received.elim t.recorder t.recorder.event⟩ :
          Reception)
      else none) = some t' := happ
  split at happ
  · next hdel =>
    obtain ⟨i, hi, rfl⟩ := Option.map_eq_some_iff.mp happ
    have hother : ∀ d, a = .event (.data d) → d.opCode ≠ 2 := by
      rintro d rfl
      simp only [Reception.delivers, Bool.and_eq_true, bne_iff_ne] at hdel
      exact hdel.2
    have hin : i.InBounds :=
      h.inBounds.apply (fun d hd hbin => absurd hbin (hother d hd)) hi
    have hsettled := State.settled_apply hi
    cases a with
    | handler | session | playback =>
        refine ⟨?_, ?_, hin⟩
        · show Recorded t.recorder i.settled
          exact hsettled ▸ h.recorded
        · intro f hf
          show Reading f t.recorder i.settled
          exact hsettled ▸ h.reading f hf
    | event e =>
        refine ⟨?_, fun f hf => ?_, hin⟩
        · show Recorded (t.recorder.event e) i.settled
          rw [hsettled]
          exact h.recorded.event fun d hd => hother d (congrArg _ hd)
        · -- a frame is being read: the event is neither data nor a disconnection
          show Reading f (t.recorder.event e) i.settled
          cases e with
          | disconnected => cases hf
          | data d =>
              simp only [Reception.delivers, Bool.and_eq_true,
                Option.isNone_iff_eq_none] at hdel
              cases hdel.1.symm.trans hf
          | connected | error | other => exact hsettled ▸ h.reading f hf
  · cases happ

/-- Every delivery is received. -/
theorem Receives.step (h : Receives t) {a : Delivery}
    (happ : reception.apply a t = some t') : Receives t' := by
  cases a with
  | frame payload =>
      have happ : (if t.frame = none ∧ payload.length % 2 = 0 then
          some { t with frame := some ⟨payload, 0⟩ } else none) = some t' := happ
      split at happ
      · next hnew =>
        rw [← Option.some.inj happ]
        refine ⟨h.recorded, fun f hf => ?_, h.inBounds⟩
        rw [← Option.some.inj hf]
        exact ⟨hnew.2, Nat.zero_le _, fun hpos => absurd hpos (Nat.lt_irrefl 0),
          fun ho => (h.recorded.holds ho).copied⟩
      · cases happ
  | chunk n =>
      cases hf : t.frame with
      | none => simp [reception, hf] at happ
      | some f =>
          simp only [reception, hf] at happ
          exact h.chunk hf (List.take_prefix _ _) happ
  | own a => exact h.own happ

/-- `MAX_SESSION_SAMPLES`. -/
def maxSessionSamples : Nat := 16000 * 16

/-- The counter never runs ahead of the settled one. -/
theorem State.samples_le_settled (s : State) :
    s.psramSamples ≤ s.settled.samples := by
  unfold State.settled
  split
  · exact Nat.le_refl _
  · exact Nat.le_add_right _ _

/-- The stops of the settled state are those recorded. -/
theorem State.stopped_settled (s : State) :
    s.settled.stopped = s.history.map (·.snapshot) := by
  unfold State.settled
  split <;> rfl

/-- Whatever the client delivers, every copy ends inside the buffer, the
counter stays within it, and every accepted stop has buffered exactly the
messages completed since its session started that still fitted when they
began, in order. -/
theorem received_exact (hr : reception.Reachable t) :
    t.intercom.InBounds
      ∧ t.intercom.psramSamples ≤ maxSessionSamples
      ∧ t.intercom.history.map (·.snapshot) = t.recorder.stopped.map keptAudio := by
  have h : Receives t :=
    hr.invariant receives_init fun _ _ _ h _ happ => h.step happ
  refine ⟨h.inBounds, ?_, ?_⟩
  · have hle := t.intercom.samples_le_settled
    have hbound := h.recorded.bound
    unfold maxSessionBytes at hbound
    unfold maxSessionSamples
    omega
  · rw [← State.stopped_settled]
    exact h.recorded.stopped

/-- A message in three chunks, one of them empty, then one that is
abandoned; the socket comes back, and a session of two messages is
stopped. -/
def abandoned : List Delivery :=
  [.frame [9, 9, 9, 9], .chunk 2, .own .handler, .own .handler, .own .handler,
    .own (.event .disconnected), .frame [1, 0, 2, 0], .chunk 0, .own .handler,
    .chunk 3, .own .handler, .own .handler, .own .handler, .own .handler,
    .chunk 1, .own .handler, .own .handler, .frame [3, 0], .chunk 2,
    .own .handler, .own .handler, .own .handler,
    .own (.event (.data ⟨9, 0, 0, []⟩)), .own stopMessage]

/-- The abandoned message is not in what is buffered. -/
theorem received_exact_abandoned :
    ∃ t : Reception, t.recorder.stopped = [[[1, 0, 2, 0], [3, 0]]]
      ∧ t.intercom.history.map (·.snapshot) = [[1, 2, 3]]
      ∧ t.intercom.InBounds := by
  have hrun : (reception.run reception.init abandoned).map (·.recorder.stopped)
      = some [[[1, 0, 2, 0], [3, 0]]] := by decide +kernel
  obtain ⟨t, ht, hstopped⟩ := Option.map_eq_some_iff.mp hrun
  obtain ⟨hin, -, hhist⟩ := received_exact (Machine.reachable_of_run ht)
  refine ⟨t, hstopped, ?_, hin⟩
  rw [hhist, hstopped]
  decide

end SitNChow.Intercom
