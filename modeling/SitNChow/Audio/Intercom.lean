/-
The push-to-talk intercom (audio_intercom.c): the WebSocket handler that
fills `s_psram_buf`, `session_play_task`, and the player that plays from
the same buffer.

# One buffer, three tasks

The handler writes the buffer and the sample counter as messages arrive.
A "stop" opens the play trigger; `session_play_task` then reads the
counter and hands buffer and count to `audio_player_start`; the playback
task reads the samples one by one. `s_iram_buf` is NULL (`MAX_IRAM_BYTES`
is 0, for which `heap_caps_malloc` returns NULL), so nothing is copied.
The copy of a message goes byte by byte, so everything interleaves with
it.

# Intact playback

Every accepted stop has a ghost record: the samples buffered at it, those
output for it so far, and the later stop whose call of
`audio_player_start` has cut it short, if any. `Intact` says that what a
record lacks is exactly what the buffer still holds for it (`pending`),
unless it was cut short. It is kept by every step that is `Unhurt`: the
handler leaves the counter alone until it is read and the samples alone
until they are output, and a call sets `s_playing` when the playback has
nothing older in hand.
-/
import SitNChow.CJson
import SitNChow.Audio.Solo

namespace SitNChow.Intercom

open Kit

-- ============================================================ the state

/-- An `int16_t` sample. -/
abbrev Sample := BitVec 16

/-- `MAX_SESSION_BYTES`: 16 s of 16 kHz, two bytes a sample. -/
def maxSessionBytes : Nat := 16000 * 16 * 2

/-- Sample `i` of a little-endian buffer. -/
def sampleAt (buf : Nat → UInt8) (i : Nat) : Sample :=
  (buf (2 * i + 1)).toBitVec ++ (buf (2 * i)).toBitVec

/-- Samples `i .. n - 1` of a buffer. -/
def samplesFrom (buf : Nat → UInt8) (i n : Nat) : List Sample :=
  (List.range' i (n - i)).map (sampleAt buf)

/-- `esp_websocket_event_data_t`, as far as the handler reads it; `data`
is `data_ptr[0 .. data_len)`. -/
structure DataEvent where
  opCode : Nat
  payloadOffset : Nat
  payloadLen : Nat
  data : List UInt8

/-- The WebSocket events. -/
inductive WsEvent where
  | connected
  | disconnected
  | data (d : DataEvent)
  | error
  | other

/-- Where the handler is: between events, or copying a chunk to `dst`,
after which it adds `samples` to the counter (when the chunk completes
its message). -/
inductive HandlerPc where
  | idle
  | copy (dst : Nat) (rest : List UInt8) (samples : Option Nat)
deriving DecidableEq

/-- Where `session_play_task` is, outside its `audio_player_start` call:
at the trigger, at the test for an empty session, at the read of the
count. -/
inductive SessionPc where
  | wait
  | test
  | read
deriving DecidableEq

/-- An accepted stop: the samples buffered at it, those output for it so
far, and the later stop that has replaced its playback (ghost). -/
structure Playback where
  snapshot : List Sample
  output : List Sample
  replacedBy : Option Nat
deriving DecidableEq

/-- Output one more sample. -/
def Playback.push (x : Sample) (r : Playback) : Playback :=
  { r with output := r.output ++ [x] }

/-- The call made for stop `j` stops this playback. -/
def Playback.replace (j : Nat) (r : Playback) : Playback :=
  { r with replacedBy := some j }

/-- The intercom: `s_psram_buf`, `s_psram_samples`, `s_session_open`,
`s_play_trigger`, the tasks, the player, and the accepted stops, oldest
first. The only buffer played is `s_psram_buf`; its pointer carries the
index of the stop it is played for (ghost). -/
structure State where
  psramBuf : Nat → UInt8
  psramSamples : Nat
  sessionOpen : Bool
  playTrigger : Bool
  handler : HandlerPc
  session : SessionPc
  player : Player Unit Nat
  history : List Playback

/-- After `audio_intercom_start`. -/
def State.init : State where
  psramBuf := fun _ => 0
  psramSamples := 0
  sessionOpen := false
  playTrigger := false
  handler := .idle
  session := .wait
  player := Player.init
  history := []

-- ========================================================== the handler

/-- `strncmp(data_ptr, "stop", 4) == 0` on a text event. -/
def DataEvent.isStop (d : DataEvent) : Bool :=
  d.opCode == 1 && decide (4 ≤ d.data.length) && d.data.take 4 == cstr "stop"

/-- A binary event that starts a session. -/
def State.opens (s : State) (d : DataEvent) : Bool :=
  d.opCode == 2 && !s.sessionOpen && d.payloadOffset == 0

/-- The counter when a binary event has passed the session test. -/
def State.startCount (s : State) (d : DataEvent) : Nat :=
  if s.opens d then 0 else s.psramSamples

/-- The samples a binary event adds once it is copied, if it completes
its message. -/
def DataEvent.newSamples (d : DataEvent) : Option Nat :=
  if d.payloadOffset + d.data.length ≥ d.payloadLen then
    some (d.payloadLen / 2)
  else none

/-- `ws_event_handler` on a binary event, up to its copy. -/
def State.binary (s : State) (d : DataEvent) : State :=
  { s with
    psramSamples := s.startCount d
    sessionOpen := s.opens d || s.sessionOpen
    handler :=
      if s.startCount d * 2 + d.payloadLen > maxSessionBytes then .idle
      else .copy (s.startCount d * 2 + d.payloadOffset) d.data d.newSamples }

/-- `ws_event_handler` on a stop: with a session open, the trigger is
given; the stop is recorded. -/
def State.stop (s : State) : State :=
  if s.sessionOpen then
    { s with
      sessionOpen := false
      playTrigger := true
      history :=
        s.history ++ [⟨samplesFrom s.psramBuf 0 s.psramSamples, [], none⟩] }
  else s

/-- An event arrives at the handler. -/
def State.event (e : WsEvent) (s : State) : Option State :=
  match s.handler with
  | .copy _ _ _ => none
  | .idle =>
      match e with
      | .disconnected =>
          some { s with psramSamples := 0, sessionOpen := false }
      | .data d =>
          if d.opCode = 2 then some (s.binary d)
          else if d.isStop then some s.stop
          else some s
      | .connected | .error | .other => some s

/-- A step of the handler's copy: a byte, or the counter at its end. -/
def State.handlerStep (s : State) : Option State :=
  match s.handler with
  | .idle => none
  | .copy dst (b :: rest) samples =>
      some { s with
        psramBuf := fun pos => if pos = dst then b else s.psramBuf pos
        handler := .copy (dst + 1) rest samples }
  | .copy _ [] samples =>
      some { s with
        psramSamples := s.psramSamples + samples.getD 0
        handler := .idle }

-- ==================================================== playing a session

/-- The records after the next step of the call: its `audio_player_stop`
replaces the playback the player is at. -/
def State.replaced (s : State) : List Playback :=
  match s.player.caller (), s.player.work with
  | .stop j _, some w => s.history.modify w.samples (.replace j)
  | _, _ => s.history

/-- A step of `session_play_task`: of the `audio_player_start` call it
is in, or of its own loop. -/
def State.sessionStep (s : State) : Option State :=
  match s.player.caller () with
  | .idle =>
      match s.session with
      | .wait =>
          if s.playTrigger then
            some { s with playTrigger := false, session := .test }
          else none
      | .test =>
          some { s with session := if s.psramSamples = 0 then .wait else .read }
      | .read =>
          (s.player.start () (s.history.length - 1) s.psramSamples).map
            fun p => { s with player := p, session := .wait }
  | _ =>
      (s.player.call ()).map fun p =>
        { s with player := p, history := s.replaced }

/-- A step of `audio_playback_task`; at its output it reads the buffer
as it then is. -/
def State.playbackStep (s : State) : Option State :=
  s.player.playback.map fun p =>
    { s with
      player := p
      history :=
        match s.player.task with
        | .out k _ i => s.history.modify k (.push (sampleAt s.psramBuf i))
        | _ => s.history }

/-- The steps of the intercom. -/
inductive Action where
  | event (e : WsEvent)
  | handler
  | session
  | playback

/-- A step of one of the two playing tasks. -/
def Action.isTask : Action → Bool
  | .session | .playback => true
  | .event _ | .handler => false

/-- The intercom as a machine. -/
def intercom : Machine State Action where
  init := State.init
  apply
    | .event e, s => s.event e
    | .handler, s => s.handlerStep
    | .session, s => s.sessionStep
    | .playback, s => s.playbackStep

-- ====================================================== what is in flight

/-- The count of the last accepted stop is still to be read. -/
def State.unread (s : State) : Bool :=
  s.playTrigger || decide (s.session ≠ .wait)

/-- An accepted stop is still to be played, or being played. -/
def State.inFlight (s : State) : Bool := s.unread || !s.player.quiet

/-- Stop `k` is still to be played, or being played. -/
def State.busyWith (s : State) (k : Nat) : Bool :=
  (s.unread && k + 1 == s.history.length)
    || (s.player.work.any fun w => w.samples == k)
    || s.player.asked.any fun w => w.samples == k

/-- Byte `pos` belongs to no sample of a work. -/
def outside (pos : Nat) (w : Work Nat) : Bool :=
  pos < 2 * w.next || 2 * w.count ≤ pos

/-- Byte `pos` belongs to no sample still to be output. -/
def State.spare (s : State) (pos : Nat) : Bool :=
  s.player.work.all (outside pos) && s.player.asked.all (outside pos)
    && (!s.unread || 2 * s.psramSamples ≤ pos)

/-- A step that hurts no playback: the handler neither changes the
counter before it is read nor writes a byte of a sample still to be
output, and a call of `session_play_task` sets `s_playing` when the
playback has nothing older in hand. -/
def State.unhurt (s : State) : Action → Bool
  | .event .disconnected => !s.unread
  | .event (.data d) => !s.opens d || !s.unread
  | .event .connected | .event .error | .event .other => true
  | .handler =>
      match s.handler with
      | .copy dst (_ :: _) _ => s.spare dst
      | .copy _ [] samples => samples.isNone || !s.unread
      | .idle => true
  | .session => decide (s.player.caller () = .setPlaying → s.player.Ready)
  | .playback => true

/-- The step is `unhurt`. -/
abbrev Unhurt (s : State) (a : Action) : Prop := s.unhurt a = true

/-- Every accepted stop is played in order, and in full unless it is
still to be played or being played, or a later accepted stop has replaced
its playback. -/
structure PlayedIntact (s : State) : Prop where
  inOrder : ∀ r ∈ s.history, r.output <+: r.snapshot
  inFull : ∀ k r, s.history[k]? = some r → s.busyWith k = false →
    r.replacedBy = none → r.output = r.snapshot
  byLater : ∀ k r j, s.history[k]? = some r → r.replacedBy = some j →
    k < j ∧ j < s.history.length

-- ========================================================= the invariant

/-- What the last accepted stop waits for: nothing, or the whole
session. -/
def State.waiting (s : State) (k : Nat) : List Sample :=
  if s.unread = true ∧ k + 1 = s.history.length then
    samplesFrom s.psramBuf 0 s.psramSamples
  else []

/-- The samples still to be output for stop `k`. -/
def State.pending (s : State) (k : Nat) : List Sample :=
  leftOf (sampleAt s.psramBuf) k s.player.work
    ++ leftOf (sampleAt s.psramBuf) k s.player.asked ++ s.waiting k

/-- What is pending for a record completes it, up to what a replaced
playback has lost. -/
def Completes (pending : List Sample) (r : Playback) : Prop :=
  ∃ lost, r.snapshot = r.output ++ pending ++ lost
    ∧ (r.replacedBy = none → lost = [])

/-- The invariant: a call sets the flag only when the playback is ready,
at most one stop is unread, a call is made for a later stop than the
playback before it, and what a record lacks is pending. -/
structure Intact (s : State) : Prop where
  solo : s.player.Solo
  openRead : s.sessionOpen = true → s.unread = false
  alone : s.playTrigger = true → s.session = .wait
  stopped : s.unread = true → 0 < s.history.length
  started : ∀ w, s.player.work = some w ∨ s.player.asked = some w →
    w.samples < s.history.length - s.unread.toNat
  older : ∀ w x, s.player.work = some w → s.player.asked = some x →
    w.samples < x.samples
  byLater : ∀ k r j, s.history[k]? = some r → r.replacedBy = some j →
    k < j ∧ j < s.history.length
  records : ∀ k r, s.history[k]? = some r → Completes (s.pending k) r

/-- At the start nothing is to be played. -/
theorem intact_init : Intact State.init where
  solo := Player.solo_init
  openRead := fun h => nomatch h
  alone := fun h => nomatch h
  stopped := fun h => nomatch h
  started := fun _ h => by rcases h with h | h <;> cases h
  older := fun _ _ h => nomatch h
  byLater := fun _ _ _ h => nomatch h
  records := fun _ _ h => nomatch h

variable {s s' : State}

/-- An event finds the handler idle, and does what its kind says. -/
theorem State.event_cases {e : WsEvent} (happ : s.event e = some s') :
    s.handler = .idle ∧
      ((e = .disconnected
          ∧ s' = { s with psramSamples := 0, sessionOpen := false })
        ∨ (∃ d, e = .data d ∧ d.opCode = 2 ∧ s' = s.binary d)
        ∨ (∃ d, e = .data d ∧ d.opCode ≠ 2 ∧ d.isStop = true ∧ s' = s.stop)
        ∨ (e ≠ .disconnected
          ∧ (∀ d, e = .data d → d.opCode ≠ 2 ∧ d.isStop = false) ∧ s' = s)) := by
  unfold State.event at happ
  split at happ
  · cases happ
  · next hidle =>
    refine ⟨hidle, ?_⟩
    cases e with
    | disconnected => exact .inl ⟨rfl, (Option.some.inj happ).symm⟩
    | data d =>
        dsimp only at happ
        split at happ
        · next hbin =>
          exact .inr (.inl ⟨d, rfl, hbin, (Option.some.inj happ).symm⟩)
        · next hbin =>
          split at happ
          · next hstop =>
            exact .inr (.inr (.inl
              ⟨d, rfl, hbin, hstop, (Option.some.inj happ).symm⟩))
          · next hstop =>
            refine .inr (.inr (.inr
              ⟨by simp, fun d' hd' => ?_, (Option.some.inj happ).symm⟩))
            cases hd'
            exact ⟨hbin, Bool.not_eq_true _ ▸ hstop⟩
    | connected | error | other =>
        exact .inr (.inr (.inr ⟨by simp, by simp, (Option.some.inj happ).symm⟩))

/-- A step of the copy is a byte, or the counter at its end. -/
theorem State.handlerStep_cases (happ : s.handlerStep = some s') :
    (∃ dst b rest samples, s.handler = .copy dst (b :: rest) samples
        ∧ s' = { s with
            psramBuf := fun pos => if pos = dst then b else s.psramBuf pos
            handler := .copy (dst + 1) rest samples })
      ∨ ∃ dst samples, s.handler = .copy dst [] samples
        ∧ s' = { s with
            psramSamples := s.psramSamples + samples.getD 0
            handler := .idle } := by
  unfold State.handlerStep at happ
  split at happ
  · cases happ
  · next dst b rest samples hpc =>
    exact .inl ⟨dst, b, rest, samples, hpc, (Option.some.inj happ).symm⟩
  · next dst samples hpc =>
    exact .inr ⟨dst, samples, hpc, (Option.some.inj happ).symm⟩

/-- Modifying a record in one field leaves the others. -/
theorem map_modify {β : Type} {f : Playback → Playback} {g : Playback → β}
    (hg : ∀ r, g (f r) = g r) (h : List Playback) (k : Nat) :
    (h.modify k f).map g = h.map g := by
  refine List.ext_getElem? fun j => ?_
  rw [List.getElem?_map, List.getElem?_map, List.getElem?_modify]
  cases h[j]? with
  | none => rfl
  | some r =>
      by_cases hj : k = j
      · simp [hj, hg]
      · simp [hj]

/-- Stopping a playback touches no snapshot. -/
theorem State.replaced_snapshots (s : State) :
    s.replaced.map (·.snapshot) = s.history.map (·.snapshot) := by
  unfold State.replaced
  split
  · next j _ _ _ _ => exact map_modify (f := .replace j) (fun _ => rfl) _ _
  · rfl

/-- A step of `session_play_task` touches the trigger, its own place, the
player and the marks of the records. -/
theorem State.sessionStep_frame (happ : s.sessionStep = some s') :
    ∃ trigger pc p history,
      s' = { s with playTrigger := trigger, session := pc, player := p
                    history := history }
        ∧ history.map (·.snapshot) = s.history.map (·.snapshot) := by
  unfold State.sessionStep at happ
  split at happ
  · split at happ
    · split at happ
      · exact ⟨_, _, _, _, (Option.some.inj happ).symm, rfl⟩
      · cases happ
    · exact ⟨_, _, _, _, (Option.some.inj happ).symm, rfl⟩
    · obtain ⟨p, -, rfl⟩ := Option.map_eq_some_iff.mp happ
      exact ⟨_, _, _, _, rfl, rfl⟩
  · obtain ⟨p, -, rfl⟩ := Option.map_eq_some_iff.mp happ
    exact ⟨_, _, _, _, rfl, s.replaced_snapshots⟩

/-- A state where the session has been read: nothing waits. -/
theorem State.waiting_of_read (h : s.unread = false) (k : Nat) :
    s.waiting k = [] := by
  simp [State.waiting, h]

/-- Nothing is left for a stop the player has not been started for. -/
theorem Intact.left_later (h : Intact s) {k : Nat}
    (hk : s.history.length - s.unread.toNat ≤ k) :
    leftOf (sampleAt s.psramBuf) k s.player.work = []
      ∧ leftOf (sampleAt s.psramBuf) k s.player.asked = [] := by
  refine ⟨leftOf_other fun w hw => ?_, leftOf_other fun w hw => ?_⟩
  · have hlt := h.started w (.inl hw)
    omega
  · have hlt := h.started w (.inr hw)
    omega

/-- A record of the same output and mark lacks the same. -/
theorem Completes.congr {pending pending' : List Sample} {r : Playback}
    (h : Completes pending r) (heq : pending' = pending) :
    Completes pending' r := heq ▸ h

/-- Reading a session depends only on its bytes. -/
theorem samplesFrom_congr {buf buf' : Nat → UInt8} {n : Nat}
    (h : ∀ i < n, sampleAt buf i = sampleAt buf' i) :
    samplesFrom buf 0 n = samplesFrom buf' 0 n := by
  refine List.map_congr_left fun i hi => h i ?_
  rw [List.mem_range'_1] at hi
  omega

-- ==================================================== the handler's steps

/-- A step that moves neither the player nor a stop, and hurts nothing. -/
structure Spared (s s' : State) : Prop where
  player : s'.player = s.player
  unread : s'.unread = s.unread
  alone : s'.playTrigger = true → s'.session = .wait
  history : s'.history = s.history
  opened : s'.sessionOpen = true → s.sessionOpen = true ∨ s.unread = false
  count : s.unread = true → s'.psramSamples = s.psramSamples
  playing : ∀ w, s.player.work = some w ∨ s.player.asked = some w →
    ∀ i, w.next ≤ i → i < w.count →
      sampleAt s'.psramBuf i = sampleAt s.psramBuf i
  buffered : s.unread = true → ∀ i < s.psramSamples,
    sampleAt s'.psramBuf i = sampleAt s.psramBuf i

/-- A step that writes no byte. -/
theorem Spared.of_buf (hplayer : s'.player = s.player)
    (hunread : s'.unread = s.unread)
    (halone : s'.playTrigger = true → s'.session = .wait)
    (hhistory : s'.history = s.history) (hopened : s'.sessionOpen = true →
      s.sessionOpen = true ∨ s.unread = false)
    (hcount : s.unread = true → s'.psramSamples = s.psramSamples)
    (hbuf : s'.psramBuf = s.psramBuf) : Spared s s' :=
  ⟨hplayer, hunread, halone, hhistory, hopened, hcount,
    fun _ _ _ _ _ => by rw [hbuf], fun _ _ _ => by rw [hbuf]⟩

/-- What is pending stays pending. -/
theorem Intact.spared (h : Intact s) (hs : Spared s s') : Intact s' := by
  have hpending : ∀ k, s'.pending k = s.pending k := by
    intro k
    unfold State.pending State.waiting
    rw [hs.unread, hs.history, hs.player,
      leftOf_congr (fun w hw => hs.playing w (.inl hw)) k,
      leftOf_congr (fun w hw => hs.playing w (.inr hw)) k]
    by_cases hu : s.unread = true
    · rw [hs.count hu, samplesFrom_congr (hs.buffered hu)]
    · simp [hu]
  refine ⟨?_, fun hopen => ?_, hs.alone, ?_, ?_, ?_, ?_, fun k r hk => ?_⟩
  · rw [hs.player]
    exact h.solo
  · rw [hs.unread]
    rcases hs.opened hopen with hold | hread
    · exact h.openRead hold
    · exact hread
  · rw [hs.unread, hs.history]
    exact h.stopped
  · rw [hs.player, hs.unread, hs.history]
    exact h.started
  · rw [hs.player]
    exact h.older
  · rw [hs.history]
    exact h.byLater
  · rw [hpending k]
    exact h.records k r (hs.history ▸ hk)

/-- An accepted stop has its whole session pending. -/
theorem Intact.stop (h : Intact s) : Intact s.stop := by
  unfold State.stop
  split
  · next hopen =>
    have hread := h.openRead hopen
    obtain ⟨htrig, hwait⟩ : s.playTrigger = false ∧ s.session = .wait := by
      simpa [State.unread] using hread
    refine ⟨h.solo, fun hc => (nomatch hc), fun _ => hwait, fun _ => ?_,
      fun w hw => ?_, h.older, fun k r j hk hj => ?_, fun k r hk => ?_⟩
    · simp
    · have hlt := h.started w hw
      simp only [hread, Bool.toNat_false, Nat.sub_zero] at hlt
      simpa [State.unread] using hlt
    · -- the new record is not replaced
      rcases Nat.lt_or_ge k s.history.length with hlt | hge
      · rw [List.getElem?_append_left hlt] at hk
        have hlater := h.byLater k r j hk hj
        rw [List.length_append]
        omega
      · rw [List.getElem?_append_right hge] at hk
        rw [List.getElem?_singleton] at hk
        split at hk
        · obtain rfl := Option.some.inj hk
          cases hj
        · cases hk
    · -- the records so far, and the new one
      rcases Nat.lt_or_ge k s.history.length with hlt | hge
      · rw [List.getElem?_append_left hlt] at hk
        refine (h.records k r hk).congr ?_
        unfold State.pending
        rw [State.waiting_of_read hread]
        simp [State.waiting, Nat.ne_of_lt hlt]
      · rw [List.getElem?_append_right hge, List.getElem?_singleton] at hk
        split at hk
        · next hlen =>
          obtain rfl := Option.some.inj hk
          obtain ⟨hwork, hasked⟩ :=
            h.left_later (Nat.le_trans (Nat.sub_le _ _) hge)
          have hlast : k = s.history.length := by omega
          subst hlast
          refine ⟨[], ?_, fun _ => rfl⟩
          simp [State.pending, State.waiting, State.unread, hwork, hasked]
        · cases hk
  · exact h

/-- What `spare` says about the samples: they read the same after the
write. -/
theorem State.sampleAt_write {buf : Nat → UInt8} {dst i : Nat} (b : UInt8)
    (h : dst < 2 * i ∨ 2 * (i + 1) ≤ dst) :
    sampleAt (fun pos => if pos = dst then b else buf pos) i
      = sampleAt buf i := by
  have hlow : 2 * i ≠ dst := by omega
  have hhigh : 2 * i + 1 ≠ dst := by omega
  simp [sampleAt, hlow, hhigh]

/-- An event that hurts nothing keeps the invariant. -/
theorem Intact.event (h : Intact s) {e : WsEvent}
    (hg : Unhurt s (.event e)) (happ : s.event e = some s') : Intact s' := by
  obtain ⟨-, ⟨rfl, rfl⟩ | ⟨d, rfl, -, rfl⟩ | ⟨d, rfl, -, -, rfl⟩ | ⟨-, -, rfl⟩⟩ :=
    State.event_cases happ
  · -- disconnected
    have hread : s.unread = false := Bool.not_eq_true' _ |>.mp hg
    exact h.spared (.of_buf rfl rfl h.alone rfl (fun hc => nomatch hc)
      (fun hu => nomatch hread.symm.trans hu) rfl)
  · -- a binary message
    have hopens : s.opens d = true → s.unread = false := by
      intro ho
      have hg : (!s.opens d || !s.unread) = true := hg
      simpa [ho] using hg
    refine h.spared (.of_buf rfl rfl h.alone rfl (fun ho => ?_) (fun hu => ?_) rfl)
    · have ho : (s.opens d || s.sessionOpen) = true := ho
      rcases Bool.or_eq_true_iff.mp ho with ho | ho
      · exact .inr (hopens ho)
      · exact .inl ho
    · show (if s.opens d then 0 else s.psramSamples) = s.psramSamples
      refine if_neg fun ho => ?_
      cases (hopens ho).symm.trans hu
  · exact h.stop
  · exact h

/-- So does a step of the copy. -/
theorem Intact.handler (h : Intact s) (hg : Unhurt s .handler)
    (happ : s.handlerStep = some s') : Intact s' := by
  have hg : s.unhurt .handler = true := hg
  unfold State.unhurt at hg
  obtain ⟨dst, b, rest, samples, hpc, rfl⟩ | ⟨dst, samples, hpc, rfl⟩ :=
    State.handlerStep_cases happ
  · -- one byte
    simp only [hpc, State.spare, outside, Bool.and_eq_true, Bool.or_eq_true,
      Bool.not_eq_true', decide_eq_true_eq, Option.all_eq_true] at hg
    refine h.spared ⟨rfl, rfl, h.alone, rfl, .inl, fun _ => rfl,
      fun w hw i hi hn => ?_, fun hu i hi => ?_⟩
    · have hspare : dst < 2 * w.next ∨ 2 * w.count ≤ dst :=
        hw.elim (hg.1.1 w) (hg.1.2 w)
      exact State.sampleAt_write b (by omega)
    · rcases hg.2 with hread | hpos
      · cases hread.symm.trans hu
      · exact State.sampleAt_write b (by omega)
  · -- the counter
    simp only [hpc, Bool.or_eq_true, Bool.not_eq_true'] at hg
    refine h.spared (.of_buf rfl rfl h.alone rfl .inl (fun hu => ?_) rfl)
    rcases hg with hnone | hread
    · rw [Option.isNone_iff_eq_none.mp hnone]
      rfl
    · cases hread.symm.trans hu

-- =================================================== the tasks' steps

/-- A bound on the steps of the two tasks until nothing is in flight. -/
def State.rank (s : State) : Nat :=
  s.player.rank
    + if s.unread = true then
        4 * s.psramSamples + 12
          + match s.session with
            | .wait => 3
            | .test => 2
            | .read => 1
      else 0

/-- Once it has been taken, the trigger is not given again. -/
theorem Intact.trigger_of_session (h : Intact s) (hpc : s.session ≠ .wait) :
    s.playTrigger = false :=
  Bool.eq_false_iff.mpr fun htrig => hpc (h.alone htrig)

/-- A step of `session_play_task` in its own loop keeps the invariant,
comes closer to the end and touches no record. -/
theorem Intact.loop (h : Intact s) (hcall : s.player.caller () = .idle)
    (happ : s.sessionStep = some s') :
    Intact s' ∧ s'.rank < s.rank ∧ s'.history = s.history := by
  unfold State.sessionStep at happ
  rw [hcall] at happ
  dsimp only at happ
  split at happ
  · next hpc =>
    -- at the trigger
    split at happ
    · next htrig =>
      rw [← Option.some.inj happ]
      refine ⟨h.spared (.of_buf rfl ?_ (fun hc => nomatch hc) rfl .inl
        (fun _ => rfl) rfl), ?_, rfl⟩
      · simp [State.unread, htrig]
      · simp [State.rank, State.unread, htrig, hpc]
    · cases happ
  · next hpc =>
    -- at the test for an empty session
    have htrig := h.trigger_of_session (by rw [hpc]; decide)
    rw [← Option.some.inj happ]
    by_cases hzero : s.psramSamples = 0
    · have hread : s.unread = true := by simp [State.unread, hpc]
      refine ⟨⟨h.solo, fun _ => ?_, fun hc => ?_, fun hc => ?_,
        fun w hw => ?_, h.older, h.byLater, fun k r hk => ?_⟩, ?_, rfl⟩
      · simp [State.unread, htrig, hzero]
      · cases htrig.symm.trans hc
      · simp [State.unread, htrig, hzero] at hc
      · have hlt := h.started w hw
        simp only [hread, Bool.toNat_true] at hlt
        simp only [hzero, if_true, State.unread, htrig]
        exact Nat.lt_of_lt_of_le hlt (Nat.sub_le_sub_left (by simp) _)
      · refine (h.records k r hk).congr ?_
        simp [State.pending, State.waiting, State.unread, hpc, htrig, hzero,
          samplesFrom]
      · simp [State.rank, State.unread, htrig, hpc, hzero]
    · refine ⟨h.spared (.of_buf rfl ?_ (fun hc => ?_) rfl .inl
        (fun _ => rfl) rfl), ?_, rfl⟩
      · simp [State.unread, hpc, hzero]
      · cases htrig.symm.trans hc
      · simp [State.rank, State.unread, htrig, hpc, hzero]
  · next hpc =>
    -- the call of audio_player_start, for the last stop
    have htrig := h.trigger_of_session (by rw [hpc]; decide)
    have hread : s.unread = true := by simp [State.unread, hpc]
    obtain ⟨p, hstart, hsolo, hrank, hwork, hnone, hasked⟩ :=
      h.solo.start hcall (s.history.length - 1) s.psramSamples
    rw [hstart] at happ
    rw [← Option.some.inj happ]
    have hlen := h.stopped hread
    have hearlier : ∀ w, s.player.work = some w →
        w.samples < s.history.length - 1 := by
      intro w hw
      have hlt := h.started w (.inl hw)
      rwa [hread] at hlt
    refine ⟨⟨hsolo, fun _ => ?_, fun hc => ?_, fun hc => ?_,
      fun w hw => ?_, fun w x hw hx => ?_, h.byLater, fun k r hk => ?_⟩, ?_,
      rfl⟩
    · simp [State.unread, htrig]
    · cases htrig.symm.trans hc
    · simp [State.unread, htrig] at hc
    · have hlt : w.samples ≤ s.history.length - 1 := by
        rcases hw with hw | hw
        · exact Nat.le_of_lt (hearlier w (hwork ▸ hw))
        · cases hasked.symm.trans hw
          exact Nat.le_refl _
      simp only [State.unread, htrig]
      simp
      omega
    · cases hasked.symm.trans hx
      exact hearlier w (hwork ▸ hw)
    · -- what has waited is now asked for
      refine (h.records k r hk).congr ?_
      have hk := List.getElem?_eq_some_iff.mp hk
      have hlast : s.history.length - 1 = k ↔ k + 1 = s.history.length := by
        omega
      simp [State.pending, State.waiting, State.unread, leftOf, hnone, hasked,
        hwork, hpc, htrig, samplesFrom, hlast]
    · simp [State.rank, State.unread, htrig, hpc, hrank]
      omega

/-- The record of a stop that as much is left for as before. -/
theorem Intact.untouched (h : Intact s) {p : Player Unit Nat} {k : Nat}
    {r : Playback} (hr : s.history[k]? = some r)
    (hleft : leftOf (sampleAt s.psramBuf) k p.work
        ++ leftOf (sampleAt s.psramBuf) k p.asked
      = leftOf (sampleAt s.psramBuf) k s.player.work
        ++ leftOf (sampleAt s.psramBuf) k s.player.asked) :
    (∀ j, r.replacedBy = some j → k < j ∧ j < s.history.length)
      ∧ Completes ({ s with player := p }.pending k) r := by
  refine ⟨fun j hj => h.byLater k r j hr hj, (h.records k r hr).congr ?_⟩
  show leftOf _ k p.work ++ leftOf _ k p.asked ++ s.waiting k = _
  rw [hleft]
  rfl

/-- The playback is stopped for stop `j`: what its own record had left is
cut. -/
theorem Intact.cut_own (h : Intact s) {j n : Nat}
    (hcall : s.player.asked = some ⟨j, 0, n⟩) {w : Work Nat}
    (hw : s.player.work = some w) {p : Player Unit Nat}
    (hwork : ∀ x, p.work = some x →
      ∃ m, s.player.work = some ⟨x.samples, x.next, m⟩ ∧ x.count ≤ m)
    (hasked : p.asked = s.player.asked) {r : Playback}
    (hr : s.history[w.samples]? = some r) :
    (w.samples < j ∧ j < s.history.length)
      ∧ Completes ({ s with player := p }.pending w.samples) (r.replace j) := by
  have hlater : w.samples < j := h.older w _ hw hcall
  have hlast : j < s.history.length - s.unread.toNat :=
    h.started _ (.inr hcall)
  refine ⟨⟨hlater, by omega⟩, ?_⟩
  -- nothing but the playback has samples for its record
  have hnone : leftOf (sampleAt s.psramBuf) w.samples s.player.asked = [] := by
    refine leftOf_other fun x hx => ?_
    cases hcall.symm.trans hx
    exact Nat.ne_of_gt hlater
  have hwait : s.waiting w.samples = [] := by
    refine if_neg fun hfilling => ?_
    rcases hfilling with ⟨hu, hk⟩
    rw [hu] at hlast
    simp only [Bool.toNat_true] at hlast
    omega
  have hpending : { s with player := p }.pending w.samples
      = leftOf (sampleAt s.psramBuf) w.samples p.work := by
    show leftOf _ _ p.work ++ leftOf _ _ p.asked ++ s.waiting w.samples = _
    rw [hasked, hnone, hwait, List.append_nil, List.append_nil]
  obtain ⟨lost, hlost, -⟩ := h.records w.samples r hr
  obtain ⟨rest, hrest⟩ :=
    Player.leftOf_prefix hwork (sampleAt s.psramBuf) w.samples
  refine ⟨rest ++ lost, ?_, fun hby => by cases hby⟩
  rw [hpending]
  show r.snapshot = r.output ++ _ ++ (rest ++ lost)
  rw [hlost, State.pending, hnone, hwait, ← hrest]
  simp only [List.append_assoc, List.append_nil]

/-- Stopping a playback for stop `j` marks its record; what it had left is
cut. -/
theorem Intact.cut (h : Intact s) {j n : Nat}
    (hc : s.player.caller () = .stop j n) {p : Player Unit Nat}
    (hwork : ∀ x, p.work = some x →
      ∃ m, s.player.work = some ⟨x.samples, x.next, m⟩ ∧ x.count ≤ m)
    (hasked : p.asked = s.player.asked) (k : Nat) (r' : Playback)
    (hk : s.replaced[k]? = some r') :
    (∀ i, r'.replacedBy = some i → k < i ∧ i < s.history.length)
      ∧ Completes ({ s with player := p }.pending k) r' := by
  have hcall : s.player.asked = some ⟨j, 0, n⟩ := by
    simp [Player.asked, hc]
  have hother : (∀ w, s.player.work = some w → w.samples ≠ k) →
      leftOf (sampleAt s.psramBuf) k p.work
          ++ leftOf (sampleAt s.psramBuf) k p.asked
        = leftOf (sampleAt s.psramBuf) k s.player.work
          ++ leftOf (sampleAt s.psramBuf) k s.player.asked := by
    intro hne
    rw [hasked, leftOf_other hne, leftOf_other fun x hx => ?_]
    obtain ⟨m, hm, -⟩ := hwork x hx
    exact hne ⟨x.samples, x.next, m⟩ hm
  cases hw : s.player.work with
  | none =>
      -- nothing is being played
      have hsame : s.replaced = s.history := by
        simp [State.replaced, hc, hw]
      rw [hsame] at hk
      refine h.untouched hk (hother fun w hsome => ?_)
      cases hw.symm.trans hsome
  | some w =>
      have hmark : s.replaced = s.history.modify w.samples (.replace j) := by
        simp [State.replaced, hc, hw]
      rw [hmark, List.getElem?_modify] at hk
      obtain ⟨r, hr, hr'⟩ := Option.map_eq_some_iff.mp hk
      by_cases hkw : w.samples = k
      · subst hkw
        rw [if_pos rfl] at hr'
        rw [← hr']
        obtain ⟨hlater, hcut⟩ := h.cut_own hcall hw hwork hasked hr
        refine ⟨fun i hi => ?_, hcut⟩
        cases hi
        exact hlater
      · rw [if_neg hkw] at hr'
        rw [← hr']
        refine h.untouched hr (hother fun x hx => ?_)
        cases hw.symm.trans hx
        exact hkw

/-- Only the stop of a playback marks a record. -/
theorem State.replaced_of_ne_stop (hne : ∀ j n, s.player.caller () ≠ .stop j n) :
    s.replaced = s.history := by
  unfold State.replaced
  split
  · next j n _ hstop _ => exact absurd hstop (hne j n)
  · rfl

/-- Any step of the call leaves the records complete. -/
theorem Intact.called (h : Intact s) {p : Player Unit Nat}
    (hcalled : s.player.Called p) {k : Nat} {r : Playback}
    (hk : s.replaced[k]? = some r) :
    (∀ j, r.replacedBy = some j → k < j ∧ j < s.history.length)
      ∧ Completes ({ s with player := p }.pending k) r := by
  have hwhole : (∀ j n, s.player.caller () ≠ .stop j n) →
      (∀ j, r.replacedBy = some j → k < j ∧ j < s.history.length)
        ∧ Completes ({ s with player := p }.pending k) r := by
    intro hne
    rw [State.replaced_of_ne_stop hne] at hk
    exact h.untouched hk (hcalled.left hne _ k)
  cases hcalled with
  | same hne _ _ => exact hwhole hne
  | stopped j n hstop hcut ha => exact h.cut hstop hcut ha k r hk
  | handed hset _ _ _ =>
      refine hwhole fun j n hstop => ?_
      cases hset.symm.trans hstop

/-- A step of the call of `audio_player_start` keeps the invariant and
comes closer to the end; with the playback at its semaphore it touches no
record. -/
theorem Intact.call (h : Intact s) (hg : Unhurt s .session)
    (hcall : s.player.caller () ≠ .idle) (happ : s.sessionStep = some s') :
    Intact s' ∧ s'.rank < s.rank
      ∧ (s.player.playback = none → s'.history = s.history) := by
  have hready : s.player.caller () = .setPlaying → s.player.Ready := by
    have hg : s.unhurt .session = true := hg
    exact of_decide_eq_true hg
  obtain ⟨p, hp, rfl⟩ : ∃ p, s.player.call () = some p
      ∧ { s with player := p, history := s.replaced } = s' := by
    unfold State.sessionStep at happ
    split at happ
    · next hidle => exact absurd hidle hcall
    · exact Option.map_eq_some_iff.mp happ
  obtain ⟨hsolo, hrank, hcalled⟩ := h.solo.call hready hp
  have hlen : s.replaced.length = s.history.length := by
    simpa using congrArg List.length s.replaced_snapshots
  have hpending : ∀ k, { s with player := p, history := s.replaced }.pending k
      = { s with player := p }.pending k := by
    intro k
    simp only [State.pending, State.waiting, hlen]
    rfl
  refine ⟨⟨hsolo, h.openRead, h.alone, fun hu => ?_, fun w hw => ?_,
    fun w x hw hx => ?_, fun k r j hk hj => ?_, fun k r hk => ?_⟩,
    Nat.add_lt_add_right hrank _, fun hblocked => ?_⟩
  · rw [hlen]
    exact h.stopped hu
  · show w.samples < s.replaced.length - s.unread.toNat
    rw [hlen]
    rcases hw with hw | hw
    · rcases hcalled.work_of hw with ⟨m, hm⟩ | ⟨-, hask⟩
      · exact h.started ⟨w.samples, w.next, m⟩ (.inl hm)
      · exact h.started w (.inr hask)
    · exact h.started w (.inr (hcalled.asked_of hw))
  · rcases hcalled.work_of hw with ⟨m, hm⟩ | ⟨hnone, -⟩
    · exact h.older ⟨w.samples, w.next, m⟩ x hm (hcalled.asked_of hx)
    · cases (hcalled.asked_eq_none hnone hw).symm.trans hx
  · rw [hlen]
    exact (h.called hcalled hk).1 j hj
  · rw [hpending k]
    exact (h.called hcalled hk).2
  · -- a playback at its semaphore has nothing to be replaced
    show s.replaced = s.history
    cases hcalled with
    | same hne _ _ => exact State.replaced_of_ne_stop hne
    | handed hset _ _ _ =>
        refine State.replaced_of_ne_stop fun j n hstop => ?_
        cases hset.symm.trans hstop
    | stopped j n hstop _ _ =>
        have hnone : s.player.work = none :=
          h.solo.work_eq_none hblocked (by simp [hstop])
        simp [State.replaced, hstop, hnone]

/-- A step of the playback outputs for the stop the player plays for. -/
theorem State.playback_history {p : Player Unit Nat}
    (hp : s.player.playback = some p) (happ : s.playbackStep = some s') (k : Nat) :
    s'.history[k]? = s.history[k]?.map fun r =>
      { r with output := r.output ++ s.player.output (sampleAt s.psramBuf) k } := by
  unfold State.playbackStep at happ
  rw [hp] at happ
  rw [← Option.some.inj happ]
  unfold Player.output
  dsimp only
  split
  · next j n i ht =>
    rw [List.getElem?_modify, ht]
    by_cases hj : j = k
    · simp only [hj, if_true]
      rfl
    · simp [hj]
  · next hsilent =>
    simp

/-- A step of the playback touches no field but the output. -/
theorem State.playback_map {β : Type} {g : Playback → β}
    (hg : ∀ r x, g (r.push x) = g r) (happ : s.playbackStep = some s') :
    s'.history.map g = s.history.map g := by
  obtain ⟨p, -, rfl⟩ := Option.map_eq_some_iff.mp happ
  dsimp only
  split
  · next k _ i _ => exact map_modify (fun r => hg r _) _ _
  · rfl

/-- A step of the playback keeps the invariant and comes closer to the
end. -/
theorem Intact.playback (h : Intact s) (happ : s.playbackStep = some s') :
    Intact s' ∧ s'.rank < s.rank := by
  obtain ⟨p, hp, hs'⟩ := Option.map_eq_some_iff.mp happ
  obtain ⟨hsolo, hrank, hasked, hplayed⟩ := h.solo.playback hp
  have hhist := State.playback_history hp happ
  have hlen : s'.history.length = s.history.length := by
    simpa using congrArg List.length
      (State.playback_map (g := Playback.snapshot) (fun _ _ => rfl) happ)
  obtain ⟨hplayer, hbuf, hcount, hunread⟩ : s'.player = p
      ∧ s'.psramBuf = s.psramBuf ∧ s'.psramSamples = s.psramSamples
      ∧ s'.unread = s.unread := by
    rw [← hs']
    exact ⟨rfl, rfl, rfl, rfl⟩
  refine ⟨⟨hplayer ▸ hsolo, ?_, ?_, ?_, fun w hw => ?_, fun w x hw hx => ?_,
    fun k r' j hk hj => ?_, fun k r' hk => ?_⟩, ?_⟩
  · rw [hunread, ← hs']
    exact h.openRead
  · rw [← hs']
    exact h.alone
  · rw [hunread, hlen]
    exact h.stopped
  · rw [hlen, hunread]
    rw [hplayer] at hw
    rcases hw with hw | hw
    · obtain ⟨y, hy, hsame⟩ := hplayed.work_of hw
      rw [← hsame]
      exact h.started y (.inl hy)
    · exact h.started w (.inr (hasked ▸ hw))
  · rw [hplayer] at hw hx
    obtain ⟨y, hy, hsame⟩ := hplayed.work_of hw
    rw [← hsame]
    exact h.older y x hy (hasked ▸ hx)
  · obtain ⟨r, hr, rfl⟩ := Option.map_eq_some_iff.mp ((hhist k).symm.trans hk)
    rw [hlen]
    exact h.byLater k r j hr hj
  · obtain ⟨r, hr, rfl⟩ := Option.map_eq_some_iff.mp ((hhist k).symm.trans hk)
    have hwait : s'.waiting k = s.waiting k := by
      simp only [State.waiting, hunread, hlen, hbuf, hcount]
    obtain ⟨lost, hlost, hnone⟩ := h.records k r hr
    refine ⟨lost, ?_, hnone⟩
    show r.snapshot = _
    rw [hlost]
    unfold State.pending
    rw [hplayed.left, hplayer, hbuf, hwait, hasked]
    simp only [List.append_assoc]
  · unfold State.rank
    rw [hplayer, hunread, hcount, ← hs']
    exact Nat.add_lt_add_right hrank _

/-- Every step that hurts nothing keeps the invariant. -/
theorem Intact.step (h : Intact s) {a : Action} (hg : Unhurt s a)
    (happ : intercom.apply a s = some s') : Intact s' := by
  cases a with
  | event e => exact h.event hg happ
  | handler => exact h.handler hg happ
  | session =>
      by_cases hcall : s.player.caller () = .idle
      · exact (h.loop hcall happ).1
      · exact (h.call hg hcall happ).1
  | playback => exact (h.playback happ).1

-- ======================================================== playing intact

/-- The same stops, replaced by the same stops. -/
def SameStops (s s' : State) : Prop :=
  s'.history.map (fun r => (r.snapshot, r.replacedBy))
    = s.history.map fun r => (r.snapshot, r.replacedBy)

/-- While a stop is in flight, one of the two tasks has a step that comes
closer to the end. With the playback always first, no playback is
replaced. -/
theorem Intact.progress (h : Intact s) (hf : s.inFlight = true) :
    ∃ a s', a.isTask = true ∧ Unhurt s a ∧ intercom.apply a s = some s'
      ∧ Intact s' ∧ s'.rank < s.rank ∧ SameStops s s' := by
  cases hp : s.player.playback with
  | some p =>
      obtain ⟨s', happ⟩ : ∃ s', s.playbackStep = some s' := by
        unfold State.playbackStep
        rw [hp]
        exact ⟨_, rfl⟩
      obtain ⟨h', hlt⟩ := h.playback happ
      exact ⟨.playback, s', rfl, rfl, happ, h', hlt,
        State.playback_map (fun _ _ => rfl) happ⟩
  | none =>
      obtain ⟨htask, hsem⟩ := Player.playback_eq_none hp
      have hg : Unhurt s .session := by
        refine decide_eq_true fun _ => ?_
        rw [Player.Ready, htask]
        trivial
      by_cases hcall : s.player.caller () = .idle
      · have hunread : s.unread = true := by
          simpa [State.inFlight, Player.quiet, hcall, htask, hsem] using hf
        obtain ⟨s', happ⟩ : ∃ s', s.sessionStep = some s' := by
          unfold State.sessionStep
          rw [hcall]
          cases hpc : s.session with
          | wait =>
              have htrig : s.playTrigger = true := by
                simpa [State.unread, hpc] using hunread
              exact ⟨_, if_pos htrig⟩
          | test => exact ⟨_, rfl⟩
          | read =>
              obtain ⟨p, hstart, -⟩ :=
                h.solo.start hcall (s.history.length - 1) s.psramSamples
              exact ⟨_, by rw [hstart]; rfl⟩
        obtain ⟨h', hlt, hhist⟩ := h.loop hcall happ
        exact ⟨.session, s', rfl, hg, happ, h', hlt, by rw [SameStops, hhist]⟩
      · obtain ⟨s', happ⟩ : ∃ s', s.sessionStep = some s' := by
          obtain ⟨p, hp⟩ := Player.call_isSome hcall
          unfold State.sessionStep
          split
          · next hidle => exact absurd hidle hcall
          · exact ⟨_, by rw [hp]; rfl⟩
        obtain ⟨h', hlt, hhist⟩ := h.call hg hcall happ
        exact ⟨.session, s', rfl, hg, happ, h', hlt,
          by rw [SameStops, hhist hp]⟩

/-- From the invariant, the two tasks by themselves play everything in
flight to its end, replacing nothing. -/
theorem Intact.drain (h : Intact s) :
    ∃ acts s', (∀ a ∈ acts, a.isTask = true)
      ∧ intercom.runBy Unhurt s acts = some s'
      ∧ (Intact s' ∧ SameStops s s') ∧ s'.inFlight = false := by
  refine Machine.exists_runBy_of_rank (M := intercom) (G := Unhurt)
    (I := fun s' => Intact s' ∧ SameStops s s')
    (fun s' => s'.inFlight = false) State.rank (fun s₁ hI hopen => ?_) ⟨h, rfl⟩
  obtain ⟨a, s₂, ha, hg, happ, h₂, hlt, hsame⟩ :=
    hI.1.progress (Bool.not_eq_false _ ▸ hopen)
  exact ⟨a, s₂, ha, hg, happ, ⟨h₂, hsame.trans hI.2⟩, hlt⟩

/-- A record that is not being played lacks nothing, unless its playback
was replaced. -/
theorem Intact.playedIntact (h : Intact s) : PlayedIntact s where
  inOrder := fun r hr => by
    obtain ⟨k, hk⟩ := List.getElem?_of_mem hr
    obtain ⟨lost, hlost, -⟩ := h.records k r hk
    exact ⟨s.pending k ++ lost, by rw [hlost, List.append_assoc]⟩
  inFull := fun k r hk hbusy hnot => by
    obtain ⟨lost, hlost, hnone⟩ := h.records k r hk
    simp only [State.busyWith, Bool.or_eq_false_iff, Bool.and_eq_false_iff,
      beq_eq_false_iff_ne, Option.any_eq_false] at hbusy
    obtain ⟨⟨hread, hwork⟩, hasked⟩ := hbusy
    have hwait : s.waiting k = [] := by
      refine if_neg fun ⟨hu, hk⟩ => ?_
      rcases hread with hread | hne
      · cases hread.symm.trans hu
      · exact hne hk
    rw [hlost, hnone hnot, State.pending, hwait,
      leftOf_other fun x hx => by simpa using hwork x hx,
      leftOf_other fun x hx => by simpa using hasked x hx]
    simp
  byLater := h.byLater

/-- Once nothing is in flight, no stop is being played. -/
theorem Intact.busyWith_done (h : Intact s) (hf : s.inFlight = false)
    (k : Nat) : s.busyWith k = false := by
  simp only [State.inFlight, Bool.or_eq_false_iff, Bool.not_eq_false',
    Player.quiet, Bool.and_eq_true, decide_eq_true_eq,
    Bool.not_eq_true'] at hf
  obtain ⟨hread, ⟨hcall, hsem⟩, htask⟩ := hf
  have hblocked : s.player.playback = none := by
    simp [Player.playback, htask, hsem]
  have hwork : s.player.work = none :=
    h.solo.work_eq_none hblocked (by simp [hcall])
  have hasked : s.player.asked = none := by simp [Player.asked, hcall]
  simp [State.busyWith, hread, hwork, hasked]

/-- While no step hurts a playback, every accepted stop is played in
order and, once it is over, in full, unless a later accepted stop has
replaced its playback; and the two playing tasks by themselves bring
every accepted stop to its end, replacing no further playback. -/
theorem session_played_intact (hr : intercom.ReachableBy Unhurt s) :
    PlayedIntact s
      ∧ ∃ acts s', (∀ a ∈ acts, a.isTask = true)
        ∧ intercom.runBy Unhurt s acts = some s'
        ∧ s'.inFlight = false ∧ SameStops s s'
        ∧ ∀ r ∈ s'.history, r.replacedBy = none → r.output = r.snapshot := by
  have h : Intact s :=
    hr.invariant intact_init fun _ _ _ h hg happ => h.step hg happ
  refine ⟨h.playedIntact, ?_⟩
  obtain ⟨acts, s', hacts, hrun, ⟨h', hsame⟩, hdone⟩ := h.drain
  refine ⟨acts, s', hacts, hrun, hdone, hsame, fun r hmem hnot => ?_⟩
  obtain ⟨k, hk⟩ := List.getElem?_of_mem hmem
  exact h'.playedIntact.inFull k r hk (h'.busyWith_done hdone k) hnot

/-- A message of one chunk, then its copy, byte by byte, and the
counter. -/
def message (bytes : List UInt8) : List Action :=
  .event (.data ⟨2, 0, bytes.length, bytes⟩)
    :: List.replicate (bytes.length + 1) .handler

/-- The stop message. -/
def stopMessage : Action := .event (.data ⟨1, 0, 4, cstr "stop"⟩)

/-- A session, its stop, and the call of `audio_player_start`. -/
def sessionStarted (bytes : List UInt8) : List Action :=
  message bytes ++ stopMessage :: List.replicate 8 .session

/-- The next session is recorded over a sample already played and
stopped; its call stops the playback and hands the new session over once
the playback is back at its semaphore. -/
def followed : List Action :=
  sessionStarted [1, 0, 2, 0, 3, 0] ++ List.replicate 6 .playback
    ++ message [4, 0] ++ stopMessage :: List.replicate 5 .session
    ++ List.replicate 2 .playback ++ List.replicate 4 .session

/-- The second session replaces the first after one sample, and is
played. -/
theorem session_played_followed :
    ∃ s, s.history = [⟨[1, 2, 3], [1], some 1⟩, ⟨[4], [], none⟩]
      ∧ PlayedIntact s
      ∧ ∃ acts s', (∀ a ∈ acts, a.isTask = true)
        ∧ intercom.runBy Unhurt s acts = some s'
        ∧ s'.inFlight = false ∧ SameStops s s'
        ∧ ∀ r ∈ s'.history, r.replacedBy = none → r.output = r.snapshot := by
  have hrun : (intercom.runBy Unhurt State.init followed).map (·.history)
      = some [⟨[1, 2, 3], [1], some 1⟩, ⟨[4], [], none⟩] := by decide +kernel
  obtain ⟨s, hs, hhist⟩ := Option.map_eq_some_iff.mp hrun
  exact ⟨s, hhist, session_played_intact (Machine.ReachableBy.init.runBy hs)⟩

/-- The socket disconnects between the stop and `session_play`. -/
def cancelled : List Action :=
  message [1, 0, 2, 0] ++ [stopMessage, .event .disconnected]
    ++ List.replicate 2 .session

/-- The next session's first chunk arrives after one sample. -/
def overwritten : List Action :=
  sessionStarted [1, 0, 2, 0] ++ List.replicate 6 .playback
    ++ message [9, 0, 9, 0] ++ List.replicate 4 .playback

/-- The next session is stopped and `audio_player_start` called for it
before the playback has ended. -/
def cutOff : List Action :=
  sessionStarted [1, 0, 2, 0] ++ List.replicate 6 .playback
    ++ message [9, 0] ++ stopMessage :: List.replicate 9 .session
    ++ List.replicate 10 .playback

/-- An accepted stop is not played at all, played with the next
session's samples, or lost to the end of the playback before it. -/
theorem session_not_intact :
    (intercom.run State.init cancelled).map (fun s => (s.history, s.inFlight))
        = some ([⟨[1, 2], [], none⟩], false)
      ∧ (intercom.run State.init overwritten).map
          (fun s => (s.history, s.inFlight))
        = some ([⟨[1, 2], [1, 9], none⟩], false)
      ∧ (intercom.run State.init cutOff).map
          (fun s => (s.history, s.inFlight))
        = some ([⟨[1, 2], [1, 2], some 1⟩, ⟨[9], [], none⟩], false) := by
  decide +kernel

end SitNChow.Intercom
