/-
What the intercom has received: the session buffer as a function of the
WebSocket events, and that it holds exactly the messages that still
fitted.

# Settling

The handler's copy goes byte by byte, with everything else in between.
`State.settled` looks past it: the buffer, the counter and the session
flag as they are once the copy is over, with the sessions stopped so
far. No step of a task moves it (`settled_handler`, `settled_session`,
`settled_playback`), and an event moves it as `receive` says
(`settled_event`), so after a run it is a fold over the events that
arrived (`settled_run`).

# Messages

`kept` is what a session is to hold: its messages in order, less those
that no longer fitted when they began. `Holds` says that the buffer
spells the kept messages, `Copied` that the message being received lies
behind them as far as it has come. A chunk keeps the one, and at its end
moves it to the next (`Holds.chunk`).
-/
import SitNChow.Kit.Memory
import SitNChow.Audio.Intercom

namespace SitNChow.Intercom

open Kit

-- ================================================ bytes read as samples

/-- Little-endian samples of a list of bytes. -/
def samplesOf : List UInt8 → List Sample
  | lo :: hi :: rest => (hi.toBitVec ++ lo.toBitVec) :: samplesOf rest
  | _ => []

/-- Whole samples in front do not change those behind. -/
theorem samplesOf_append : ∀ {xs ys : List UInt8}, xs.length % 2 = 0 →
    samplesOf (xs ++ ys) = samplesOf xs ++ samplesOf ys
  | [], _, _ => rfl
  | [_], _, h => nomatch h
  | lo :: hi :: rest, ys, h => by
      have hrest : rest.length % 2 = 0 := by
        simp only [List.length_cons] at h
        omega
      show _ :: samplesOf (rest ++ ys) = _ :: (samplesOf rest ++ samplesOf ys)
      rw [samplesOf_append hrest]

/-- The samples of a buffer are the samples of its bytes. -/
theorem samplesFrom_eq (buf : Nat → UInt8) (n : Nat) :
    samplesFrom buf 0 n = samplesOf (load buf (2 * n)) := by
  induction n with
  | zero => rfl
  | succ n ih =>
      have hload : load buf (2 * (n + 1))
          = load buf (2 * n) ++ [buf (2 * n), buf (2 * n + 1)] := by
        show load buf (2 * n + 1 + 1) = _
        rw [load_succ, load_succ, List.append_assoc]
        rfl
      have hsamples : samplesFrom buf 0 (n + 1)
          = samplesFrom buf 0 n ++ [sampleAt buf n] := by
        simp [samplesFrom, List.range'_concat]
      rw [hload, samplesOf_append (by simp), hsamples, ih]
      rfl

-- ============================================================= settling

/-- The received audio: `s_psram_buf`, `s_psram_samples`,
`s_session_open`, and the audio of every accepted stop, oldest first. -/
structure Received where
  buf : Nat → UInt8
  samples : Nat
  sessionOpen : Bool
  stopped : List (List Sample)

/-- What is received once the handler's copy is over. -/
def State.settled (s : State) : Received :=
  match s.handler with
  | .idle =>
      ⟨s.psramBuf, s.psramSamples, s.sessionOpen, s.history.map (·.snapshot)⟩
  | .copy dst rest samples =>
      ⟨store s.psramBuf dst rest, s.psramSamples + samples.getD 0,
        s.sessionOpen, s.history.map (·.snapshot)⟩

/-- The session test of a binary event. -/
def Received.opened (d : DataEvent) (r : Received) : Received :=
  if !r.sessionOpen && d.payloadOffset == 0 then
    { r with samples := 0, sessionOpen := true }
  else r

/-- The copy of a binary event, when its message fits. -/
def Received.written (d : DataEvent) (r : Received) : Received :=
  if r.samples * 2 + d.payloadLen > maxSessionBytes then r
  else
    { r with
      buf := store r.buf (r.samples * 2 + d.payloadOffset) d.data
      samples := r.samples + d.newSamples.getD 0 }

/-- A stop. -/
def Received.stop (r : Received) : Received :=
  if r.sessionOpen then
    { r with
      sessionOpen := false
      stopped := r.stopped ++ [samplesOf (load r.buf (2 * r.samples))] }
  else r

/-- An event. -/
def Received.receive (r : Received) : WsEvent → Received
  | .disconnected => { r with samples := 0, sessionOpen := false }
  | .data d =>
      if d.opCode = 2 then (r.opened d).written d
      else if d.isStop then r.stop
      else r
  | .connected | .error | .other => r

variable {s s' : State}

/-- Without a copy the settled state is what is there. -/
theorem State.settled_idle (h : s.handler = .idle) :
    s.settled = ⟨s.psramBuf, s.psramSamples, s.sessionOpen,
      s.history.map (·.snapshot)⟩ := by
  simp only [State.settled, h]

/-- A step that moves neither the handler nor what it has written. -/
theorem State.settled_congr (hhandler : s'.handler = s.handler)
    (hbuf : s'.psramBuf = s.psramBuf)
    (hsamples : s'.psramSamples = s.psramSamples)
    (hopen : s'.sessionOpen = s.sessionOpen)
    (hhist : s'.history.map (·.snapshot) = s.history.map (·.snapshot)) :
    s'.settled = s.settled := by
  simp only [State.settled, hhandler, hbuf, hsamples, hopen, hhist]

/-- The session test leaves the counter and the flag that `binary` goes
on with. -/
theorem State.settled_opened (h : s.handler = .idle) {d : DataEvent}
    (hbin : d.opCode = 2) : s.settled.opened d =
      ⟨s.psramBuf, s.startCount d, s.opens d || s.sessionOpen,
        s.history.map (·.snapshot)⟩ := by
  rw [State.settled_idle h]
  unfold Received.opened State.startCount State.opens
  by_cases hopen : s.sessionOpen = true
  · simp [hopen]
  · by_cases hfirst : d.payloadOffset = 0
    · simp [hopen, hfirst, hbin]
    · simp [hopen, hfirst]

/-- `binary` and its copy are the session test and the copy of the
settled state. -/
theorem State.settled_binary (h : s.handler = .idle) {d : DataEvent}
    (hbin : d.opCode = 2) :
    (s.binary d).settled = (s.settled.opened d).written d := by
  rw [State.settled_opened h hbin]
  unfold Received.written
  by_cases hfull : s.startCount d * 2 + d.payloadLen > maxSessionBytes
  · rw [if_pos hfull]
    exact State.settled_idle (if_pos hfull)
  · rw [if_neg hfull]
    have hcopy : (s.binary d).handler = .copy
        (s.startCount d * 2 + d.payloadOffset) d.data d.newSamples :=
      if_neg hfull
    simp only [State.settled, hcopy]
    rfl

/-- A stop of the handler is a stop of the settled state. -/
theorem State.settled_stop (h : s.handler = .idle) :
    s.stop.settled = s.settled.stop := by
  rw [State.settled_idle h]
  unfold State.stop Received.stop
  by_cases hopen : s.sessionOpen = true
  · simp only [if_pos hopen, State.settled, h, samplesFrom_eq, List.map_append]
    rfl
  · simp only [if_neg hopen]
    exact State.settled_idle h

/-- An event of the handler is an event of the settled state. -/
theorem State.settled_event {e : WsEvent} (happ : s.event e = some s') :
    s'.settled = s.settled.receive e := by
  obtain ⟨hidle, ⟨rfl, rfl⟩ | ⟨d, rfl, hbin, rfl⟩ | ⟨d, rfl, hbin, hstop, rfl⟩
    | ⟨hdisc, hdata, rfl⟩⟩ := State.event_cases happ
  · rw [State.settled_idle hidle]
    exact State.settled_idle hidle
  · simp only [Received.receive, if_pos hbin]
    exact State.settled_binary hidle hbin
  · simp only [Received.receive, if_neg hbin, if_pos hstop]
    exact State.settled_stop hidle
  · cases e with
    | disconnected => exact absurd rfl hdisc
    | data d =>
        obtain ⟨hbin, hstop⟩ := hdata d rfl
        simp only [Received.receive, if_neg hbin, hstop, Bool.false_eq_true,
          if_false]
    | connected | error | other => rfl

/-- The copy's own steps come to what the settled state already says. -/
theorem State.settled_handler (happ : s.handlerStep = some s') :
    s'.settled = s.settled := by
  obtain ⟨dst, b, rest, samples, hh, rfl⟩ | ⟨dst, samples, hh, rfl⟩ :=
    State.handlerStep_cases happ
  · simp only [State.settled, hh]
    rfl
  · simp only [State.settled, hh]
    rfl

/-- `session_play_task` receives nothing. -/
theorem State.settled_session (happ : s.sessionStep = some s') :
    s'.settled = s.settled := by
  obtain ⟨trigger, pc, p, history, rfl, hsnap⟩ := State.sessionStep_frame happ
  exact State.settled_congr rfl rfl rfl rfl hsnap

/-- Nor does the playback. -/
theorem State.settled_playback (happ : s.playbackStep = some s') :
    s'.settled = s.settled := by
  have hsnap : s'.history.map (·.snapshot) = s.history.map (·.snapshot) :=
    State.playback_map (g := Playback.snapshot) (fun _ _ => rfl) happ
  obtain ⟨p, -, hs'⟩ := Option.map_eq_some_iff.mp happ
  exact State.settled_congr (by rw [← hs']) (by rw [← hs']) (by rw [← hs'])
    (by rw [← hs']) hsnap

/-- A step moves the settled state only when an event arrives. -/
def Action.received : Action → Option WsEvent
  | .event e => some e
  | .handler | .session | .playback => none

/-- A step of the intercom receives its event, if it is one. -/
theorem State.settled_apply {a : Action} (happ : intercom.apply a s = some s') :
    s'.settled = a.received.toList.foldl Received.receive s.settled := by
  cases a with
  | event e => exact State.settled_event happ
  | handler => exact State.settled_handler happ
  | session => exact State.settled_session happ
  | playback => exact State.settled_playback happ

/-- After a run the settled state is the fold of the events that
arrived. -/
theorem State.settled_run {acts : List Action}
    (hrun : intercom.run s acts = some s') :
    s'.settled
      = (acts.filterMap Action.received).foldl Received.receive s.settled := by
  induction acts generalizing s with
  | nil =>
      rw [Option.some.inj hrun]
      rfl
  | cons a rest ih =>
      obtain ⟨s₁, happ, hrun₁⟩ := Machine.run_cons_inv hrun
      rw [ih hrun₁, State.settled_apply happ, ← List.foldl_append]
      congr 1
      cases h : a.received <;> simp [h]

-- ======================================================= what is to be kept

/-- One more message, unless it no longer fits when it begins. -/
def keep (ms : List (List UInt8)) (m : List UInt8) : List (List UInt8) :=
  if ms.flatten.length + m.length ≤ maxSessionBytes then ms ++ [m] else ms

/-- What a session is to hold of its messages. -/
def kept (ms : List (List UInt8)) : List (List UInt8) := ms.foldl keep []

/-- The last message is kept if it fits what is kept so far. -/
theorem kept_concat {ms : List (List UInt8)} {m : List UInt8} :
    kept (ms ++ [m]) = keep (kept ms) m := by
  simp [kept]

/-- A message that fits is kept. -/
theorem keep_of_fits {ms : List (List UInt8)} {m : List UInt8}
    (h : ms.flatten.length + m.length ≤ maxSessionBytes) :
    keep ms m = ms ++ [m] := if_pos h

/-- One that does not is refused. -/
theorem keep_of_full {ms : List (List UInt8)} {m : List UInt8}
    (h : maxSessionBytes < ms.flatten.length + m.length) : keep ms m = ms :=
  if_neg (Nat.not_le_of_lt h)

/-- What is kept fits the buffer. -/
theorem kept_length (ms : List (List UInt8)) :
    (kept ms).flatten.length ≤ maxSessionBytes := by
  induction ms using List.reverseRecOn with
  | nil => exact Nat.zero_le _
  | append_singleton ms m ih =>
      rw [kept_concat]
      unfold keep
      split
      · next hfits => simpa using hfits
      · exact ih

/-- Everything is kept while everything fits. -/
theorem kept_of_fits {ms : List (List UInt8)}
    (h : ms.flatten.length ≤ maxSessionBytes) : kept ms = ms := by
  induction ms using List.reverseRecOn with
  | nil => rfl
  | append_singleton ms m ih =>
      simp only [List.flatten_append, List.flatten_singleton,
        List.length_append] at h
      rw [kept_concat, ih (by omega), keep_of_fits h]

-- ===================================================== receiving messages

/-- The session buffer spells the messages kept. -/
structure Holds (ms : List (List UInt8)) (r : Received) : Prop where
  isOpen : r.sessionOpen = true
  audio : load r.buf (2 * r.samples) = (kept ms).flatten

/-- The first `off` bytes of a message that fits lie behind the messages
kept. -/
def Copied (p : List UInt8) (off : Nat) (ms : List (List UInt8))
    (r : Received) : Prop :=
  (kept ms).flatten.length + p.length ≤ maxSessionBytes →
    load r.buf (2 * r.samples + off) = (kept ms).flatten ++ p.take off

/-- A chunk of a binary message, as the event that carries it. -/
def chunkEvent (p : List UInt8) (off : Nat) (c : List UInt8) : DataEvent :=
  ⟨2, off, p.length, c⟩

variable {ms : List (List UInt8)} {p c : List UInt8} {off : Nat} {r : Received}

/-- A message that does not fit leaves all as it was. -/
theorem Received.written_full {d : DataEvent}
    (h : maxSessionBytes < r.samples * 2 + d.payloadLen) : r.written d = r :=
  if_pos h

/-- One that fits is copied behind the samples so far. -/
theorem Received.written_fits {d : DataEvent}
    (h : r.samples * 2 + d.payloadLen ≤ maxSessionBytes) :
    r.written d = { r with
      buf := store r.buf (r.samples * 2 + d.payloadOffset) d.data
      samples := r.samples + d.newSamples.getD 0 } :=
  if_neg (Nat.not_lt_of_le h)

/-- The counter tells the length of what is kept. -/
theorem Holds.count (h : Holds ms r) :
    r.samples * 2 = (kept ms).flatten.length := by
  rw [← h.audio, length_load, Nat.mul_comm]

/-- Nothing of the next message is copied yet. -/
theorem Holds.copied (h : Holds ms r) : Copied p 0 ms r := by
  intro _
  simpa using h.audio

/-- A chunk continues the part of the message it is cut from. -/
theorem take_chunk (hc : c <+: p.drop off) :
    p.take off ++ c = p.take (off + c.length) := by
  rw [List.take_add, ← List.prefix_iff_eq_take.mp hc]

/-- A chunk of a message in an open session: the message is copied as far
as the chunk goes, and kept, if it fits, once it is complete. -/
theorem Holds.written (h : Holds ms r) (hcopied : Copied p off ms r)
    (heven : p.length % 2 = 0) (hoff : off ≤ p.length) (hc : c <+: p.drop off) :
    (off + c.length < p.length →
        Holds ms (r.written (chunkEvent p off c))
          ∧ Copied p (off + c.length) ms (r.written (chunkEvent p off c)))
      ∧ (p.length ≤ off + c.length →
        Holds (ms ++ [p]) (r.written (chunkEvent p off c))) := by
  have hcount := h.count
  by_cases hfits : (kept ms).flatten.length + p.length ≤ maxSessionBytes
  · rw [Received.written_fits (d := chunkEvent p off c)
      (hcount ▸ hfits)]
    -- what the copy leaves in the buffer
    have hload : load (store r.buf (r.samples * 2 + off) c)
        (r.samples * 2 + off + c.length)
        = (kept ms).flatten ++ p.take (off + c.length) := by
      rw [load_store, Nat.mul_comm, hcopied hfits, List.append_assoc,
        take_chunk hc]
    refine ⟨fun hpart => ?_, fun hdone => ?_⟩
    · have hnew : (chunkEvent p off c).newSamples = none :=
        if_neg (Nat.not_le_of_lt hpart)
      refine ⟨⟨h.isOpen, ?_⟩, fun _ => ?_⟩
      · show load (store r.buf (r.samples * 2 + off) c) (2 * (r.samples + _)) = _
        rw [hnew, load_store_of_le (by simp; omega)]
        exact h.audio
      · show load (store r.buf (r.samples * 2 + off) c) (2 * (r.samples + _) + _)
          = _
        rw [hnew, ← hload]
        congr 1
        simp only [Option.getD_none]
        omega
    · have hnew : (chunkEvent p off c).newSamples = some (p.length / 2) :=
        if_pos hdone
      have hlen := hc.length_le
      have hall : 2 * (r.samples + p.length / 2)
          = r.samples * 2 + off + c.length := by
        rw [List.length_drop] at hlen
        omega
      refine ⟨h.isOpen, ?_⟩
      show load (store r.buf (r.samples * 2 + off) c) (2 * (r.samples + _)) = _
      rw [hnew, Option.getD_some, hall, hload, kept_concat, keep_of_fits hfits,
        List.take_of_length_le hdone]
      simp
  · have hfull : maxSessionBytes < r.samples * 2 + p.length := by omega
    rw [Received.written_full (d := chunkEvent p off c) hfull]
    refine ⟨fun _ => ⟨h, fun hf => absurd hf hfits⟩, fun _ => ⟨h.isOpen, ?_⟩⟩
    rw [kept_concat, keep_of_full (Nat.lt_of_not_le hfits)]
    exact h.audio

/-- An open session stays as it is. -/
theorem Received.opened_open {d : DataEvent} (h : r.sessionOpen = true) :
    r.opened d = r := by
  simp [Received.opened, h]

/-- The first chunk of a message opens a closed session, which holds
nothing yet. -/
theorem Received.opened_new {d : DataEvent} (h : r.sessionOpen = false)
    (hfirst : d.payloadOffset = 0) : Holds [] (r.opened d) := by
  have heq : r.opened d = { r with samples := 0, sessionOpen := true } := by
    simp [Received.opened, h, hfirst]
  rw [heq]
  exact ⟨rfl, rfl⟩

/-- The messages of the session a chunk belongs to. -/
def Received.since (r : Received) (ms : List (List UInt8)) :
    List (List UInt8) :=
  if r.sessionOpen then ms else []

/-- A chunk of a message, which opens the session if it is the first of
its message. -/
theorem Received.chunk (hlate : 0 < off → r.sessionOpen = true)
    (hopen : r.sessionOpen = true → Holds ms r ∧ Copied p off ms r)
    (heven : p.length % 2 = 0) (hoff : off ≤ p.length) (hc : c <+: p.drop off) :
    (off + c.length < p.length →
        Holds (r.since ms) (r.receive (.data (chunkEvent p off c)))
          ∧ Copied p (off + c.length) (r.since ms)
            (r.receive (.data (chunkEvent p off c))))
      ∧ (p.length ≤ off + c.length →
        Holds (r.since ms ++ [p]) (r.receive (.data (chunkEvent p off c)))) := by
  show (_ → Holds _ ((r.opened _).written _) ∧ Copied _ _ _ ((r.opened _).written _))
    ∧ (_ → Holds _ ((r.opened _).written _))
  unfold Received.since
  by_cases hs : r.sessionOpen = true
  · obtain ⟨hholds, hcopied⟩ := hopen hs
    rw [Received.opened_open hs, if_pos hs]
    exact hholds.written hcopied heven hoff hc
  · have hzero : off = 0 := by
      by_contra hpos
      exact hs (hlate (Nat.pos_of_ne_zero hpos))
    subst hzero
    have hnew := Received.opened_new (d := chunkEvent p 0 c)
      (Bool.eq_false_iff.mpr hs) rfl
    rw [if_neg hs]
    exact hnew.written hnew.copied heven hoff hc

/-- A chunk stops no session. -/
@[simp] theorem Received.stopped_chunk :
    (r.receive (.data (chunkEvent p off c))).stopped = r.stopped := by
  show ((r.opened _).written _).stopped = r.stopped
  unfold Received.written Received.opened
  split <;> split <;> rfl

end SitNChow.Intercom
