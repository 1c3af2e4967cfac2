/-
The connection by itself: who is sending on it, what the peer has got, and
what has been acknowledged.

# The abstraction

`Wire` keeps of the client what matters for its messages, and `Wire.Step`
lists what can happen there. Because of the lock only one party sends at a
time (`Client.Apart`), so each step of the client is a step of its wire
(`Client.step_wire`).

# What the peer has

The frames are in turn, and the message that is begun is the part of the
call at work that has been sent (`Wire.Fits`). The first message is the
hello, because the client's task does not give the lock back between
connecting and sending it. And what is complete is what the calls have
sent in full (`Wire.finished`).
-/
import SitNChow.Socket.Client

namespace SitNChow.Socket

open Kit Kit.Fragments

universe u

-- ============================================================== one frame

/-- A message of its own, as `esp_websocket_client_send_text` and
`esp_websocket_client_send_bin` send it. -/
structure Call.Whole (c : Call) : Prop where
  fin : c.opcode.fin = true
  pos : c.opcode.code ≠ 0
  lt : c.opcode.code < 8

/-- A text message is sent as a whole message. -/
theorem whole_sendText (data : List UInt8) : (sendText data).Whole :=
  ⟨rfl, (by omega : 1 ≠ 0), (by omega : 1 < 8)⟩

/-- The loop of a whole message, at its start or behind its first frame. -/
structure Sending.Good (x : Sending) : Prop where
  whole : x.call.Whole
  opcode : x.opcode = x.call.opcode ∧ x.widx = 0 ∨ x.opcode = ⟨0, false⟩
  le : x.widx ≤ x.call.data.length

/-- The loop after `n` bytes more. -/
def Sending.next (x : Sending) (n : Nat) : Sending :=
  { x with opcode := ⟨0, false⟩, widx := x.widx + n }

/-- The part of the message that has been sent, before its end. -/
def Sending.begun (x : Sending) : Option (Message UInt8) :=
  if x.opcode = ⟨0, false⟩ ∧ x.widx < x.call.data.length then
    some ⟨x.call.opcode.code, x.call.data.take x.widx⟩
  else none

variable {cfg : Config} {x : Sending}

/-- A frame has the opcode of its turn. -/
theorem Sending.frame_opcode : (x.frame cfg).opcode = x.opcode.code := by
  rw [Sending.frame]
  split
  next => rfl
  next => rfl

/-- A frame is no longer than the buffer. -/
theorem Sending.length_frame_le :
    (x.frame cfg).payload.length ≤ cfg.bufferSize := by
  rw [Sending.frame]
  split
  next => exact List.length_take_le _ _
  next hshort =>
    rw [List.length_drop]
    omega

/-- What a frame has goes on where the last one ended. -/
theorem Sending.take_frame (cfg : Config) (x : Sending) :
    x.call.data.take x.widx ++ (x.frame cfg).payload
      = x.call.data.take (x.widx + (x.frame cfg).payload.length) := by
  rw [Sending.frame]
  split
  next hlong =>
    dsimp only
    rw [List.length_take, List.length_drop, Nat.min_eq_left (by omega),
      List.take_add]
  next =>
    dsimp only
    rw [List.length_drop, List.take_append_drop, List.take_of_length_le]
    omega

/-- The last frame, and no other, has the flag. -/
theorem Sending.frame_fin (cfg : Config) (hx : x.Good) :
    (x.frame cfg).fin = decide (x.widx + (x.frame cfg).payload.length
      = x.call.data.length) := by
  have hle := hx.le
  have hpos := cfg.bufferSize_pos
  rw [Sending.frame]
  split
  next hlong =>
    dsimp only
    rw [List.length_take, List.length_drop, Nat.min_eq_left (by omega)]
    exact (decide_eq_false (by omega)).symm
  next =>
    dsimp only
    rw [List.length_drop, hx.whole.fin, Bool.or_true]
    exact (decide_eq_true (by omega)).symm

/-- A frame holds no more than what is left. -/
theorem Sending.length_frame (cfg : Config) (hx : x.Good) :
    x.widx + (x.frame cfg).payload.length ≤ x.call.data.length := by
  have hlen := congrArg List.length (x.take_frame cfg)
  have hle := hx.le
  rw [List.length_append, List.length_take, List.length_take,
    Nat.min_eq_left hle] at hlen
  omega

/-- The loop stays good as it sends a part of a frame. -/
theorem Sending.Good.next (hx : x.Good) {n : Nat}
    (hn : n ≤ (x.frame cfg).payload.length) : (x.next n).Good :=
  ⟨hx.whole, .inr rfl,
    Nat.le_trans (Nat.add_le_add_left hn _) (Sending.length_frame cfg hx)⟩

/-- After its first frame the loop goes on while there is data. -/
theorem Sending.more_next {n : Nat} :
    (x.next n).more = decide (x.widx + n < x.call.data.length) := by
  rw [Sending.more, Sending.next]
  dsimp only
  rw [decide_eq_false (fun h => h rfl : ¬ (Opcode.mk 0 false ≠ ⟨0, false⟩)),
    Bool.or_false]

/-- A whole message starts good. -/
theorem good_start {c : Call} (hc : c.Whole) : (Sending.mk c c.opcode 0).Good :=
  ⟨hc, .inl ⟨rfl, rfl⟩, Nat.zero_le _⟩

/-- Its first frame is no continuation. -/
theorem opcode_ne_zero {c : Call} (hc : c.Whole) : c.opcode ≠ ⟨0, false⟩ := by
  intro h
  have hfin := hc.fin
  rw [h] at hfin
  cases hfin

/-- It sends at least one frame, also of no bytes. -/
theorem more_start {c : Call} (hc : c.Whole) :
    (Sending.mk c c.opcode 0).more = true := by
  rw [Sending.more, decide_eq_true (opcode_ne_zero hc), Bool.or_true]

/-- At its start nothing has been sent. -/
theorem begun_start {c : Call} (hc : c.Whole) :
    (Sending.mk c c.opcode 0).begun = none :=
  if_neg fun h => opcode_ne_zero hc h.1

-- ================================================================ the wire

structure Wire where
  working : Option Sending
  frames : List (Frame UInt8)
  broken : Bool
  acked : List Call

variable (cfg) in
/-- What can happen on the wire. A frame is taken whole, or refused. -/
inductive Wire.Step : Wire → Wire → Prop
  | quiet (w : Wire) : Step w w
  | cut (w : Wire) : Step w { w with broken := true }
  | control {w : Wire} {f : Frame UInt8} : w.working = none →
      8 ≤ f.opcode → f.fin = true →
      Step w { w with frames := w.frames ++ [f] }
  | connect {w : Wire} : w.working = none →
      Step w ⟨some ⟨sendText cfg.hello, opcodeText, 0⟩, [], false, []⟩
  | start {w : Wire} {c : Call} : w.working = none → c.Whole →
      Step w { w with working := some ⟨c, c.opcode, 0⟩ }
  | sent {w : Wire} {x : Sending} : w.working = some x → x.more = true →
      w.broken = false →
      Step w { w with
        working := some (x.next (x.frame cfg).payload.length)
        frames := w.frames ++ [x.frame cfg] }
  | failed {w : Wire} {x : Sending} : w.working = some x → x.more = true →
      Step w { w with working := none, broken := true }
  | done {w : Wire} {x : Sending} : w.working = some x → x.more = false →
      Step w { w with working := none, acked := w.acked ++ [x.call] }

variable (cfg) in
/-- The hello is not complete yet: nothing else is begun, and while the
connection stands it is being sent. -/
structure Greeting (w : Wire) (complete : List (Message UInt8))
    (begun : Option (Message UInt8)) : Prop where
  nil : complete = []
  part : ∀ m, begun = some m → m.opcode = 1 ∧ m.payload <+: cfg.hello
  sending : w.broken = false → ∃ x, w.working = some x
    ∧ x.call = sendText cfg.hello ∧ x.more = true

variable (cfg) in
/-- The messages begin with the hello, or with a part of it. -/
def Greeted (w : Wire) (complete : List (Message UInt8))
    (begun : Option (Message UInt8)) : Prop :=
  complete.head? = some (sendText cfg.hello).message
    ∨ Greeting cfg w complete begun

variable (cfg) in
/-- What the peer has put together from the frames. -/
structure Wire.Fits (w : Wire) (complete : List (Message UInt8))
    (begun : Option (Message UInt8)) : Prop where
  assembled : Assembled w.frames complete begun
  good : ∀ x, w.working = some x → x.Good
  pending : w.broken = false → begun = w.working.bind Sending.begun
  greeted : Greeted cfg w complete begun
  small : ∀ f ∈ w.frames, f.opcode < 8 → f.payload.length ≤ cfg.bufferSize

variable {w w' : Wire} {complete : List (Message UInt8)}
  {begun : Option (Message UInt8)}

/-- What is begun behind a whole frame. -/
theorem Sending.begun_next (cfg : Config) (hx : x.Good) :
    (x.next (x.frame cfg).payload.length).begun
      = if (x.frame cfg).fin = true then none
        else some ⟨x.call.opcode.code,
          x.call.data.take (x.widx + (x.frame cfg).payload.length)⟩ := by
  have hle := Sending.length_frame cfg hx
  rw [Sending.begun, Sending.next, Sending.frame_fin cfg hx]
  dsimp only
  by_cases hlast : x.widx + (x.frame cfg).payload.length = x.call.data.length
  · rw [if_neg (by omega), if_pos (decide_eq_true hlast)]
  · rw [if_pos ⟨rfl, by omega⟩, if_neg fun hd => hlast (of_decide_eq_true hd)]

/-- With the last frame the message is complete. -/
theorem Sending.message_of_fin (hx : x.Good)
    (hlast : (x.frame cfg).fin = true) :
    (⟨x.call.opcode.code,
        x.call.data.take (x.widx + (x.frame cfg).payload.length)⟩
      : Message UInt8) = x.call.message := by
  rw [Sending.frame_fin cfg hx] at hlast
  rw [of_decide_eq_true hlast, List.take_length]
  rfl

/-- A frame that is sent whole goes on with the message, or ends it. -/
theorem Wire.Fits.sent (h : w.Fits cfg complete begun)
    (hx : w.working = some x) (hmore : x.more = true)
    (hopen : w.broken = false) :
    Assembled (w.frames ++ [x.frame cfg])
      (complete
        ++ (if (x.frame cfg).fin = true then [x.call.message] else []))
      (x.next (x.frame cfg).payload.length).begun := by
  have hgood := h.good x hx
  have htake := x.take_frame cfg
  have hnext := Sending.begun_next cfg hgood
  have hbegun := h.pending hopen
  rw [hx, Option.bind_some] at hbegun
  have hasm := h.assembled
  rcases hgood.opcode with ⟨hop, hzero⟩ | hop
  · -- The first frame has the opcode of the message.
    have hnone : begun = none := by
      rw [hbegun, Sending.begun, if_neg]
      rintro ⟨h0, -⟩
      exact opcode_ne_zero hgood.whole (hop.symm.trans h0)
    have hcode : (x.frame cfg).opcode = x.call.opcode.code := by
      rw [Sending.frame_opcode, hop]
    have hpayload : (x.frame cfg).payload
        = x.call.data.take (x.widx + (x.frame cfg).payload.length) := by
      rw [← htake, hzero, List.take_zero, List.nil_append]
    rw [hnone] at hasm
    have hstep := hasm.first (f := x.frame cfg)
      (by rw [hcode]; exact hgood.whole.pos)
      (by rw [hcode]; exact hgood.whole.lt)
    rw [hcode] at hstep
    rw [hnext, ← hpayload]
    split at hstep
    next hlast =>
      rw [if_pos hlast, if_pos hlast,
        ← Sending.message_of_fin hgood hlast, ← hpayload]
      exact hstep
    next hlast =>
      rw [if_neg hlast, if_neg hlast, List.append_nil]
      exact hstep
  · -- A further one goes on with the message that is begun.
    have hlt : x.widx < x.call.data.length := by
      rw [Sending.more, hop] at hmore
      simpa using hmore
    have hsome : begun
        = some ⟨x.call.opcode.code, x.call.data.take x.widx⟩ := by
      rw [hbegun, Sending.begun, if_pos ⟨hop, hlt⟩]
    have hcode : (x.frame cfg).opcode = 0 := by
      rw [Sending.frame_opcode, hop]
    rw [hsome] at hasm
    have hstep := hasm.next hcode
    dsimp only at hstep
    rw [htake] at hstep
    rw [hnext]
    split at hstep
    next hlast =>
      rw [if_pos hlast, if_pos hlast, ← Sending.message_of_fin hgood hlast]
      exact hstep
    next hlast =>
      rw [if_neg hlast, if_neg hlast, List.append_nil]
      exact hstep

/-- The hello stays where it is while its sending goes on and has more to
send. -/
theorem Greeted.keeps (h : Greeted cfg w complete begun)
    (hkeep : w'.broken = false → w.broken = false
      ∧ ∀ x, w.working = some x → x.more = true → w'.working = some x) :
    Greeted cfg w' complete begun := by
  rcases h with hhead | hgreet
  · exact .inl hhead
  · refine .inr ⟨hgreet.nil, hgreet.part, fun hopen' => ?_⟩
    obtain ⟨hopen, hsame⟩ := hkeep hopen'
    obtain ⟨x, hx, hcall, hmore⟩ := hgreet.sending hopen
    exact ⟨x, hsame x hx hmore, hcall, hmore⟩

/-- Where the connection does not stand, nothing follows. -/
theorem Wire.Fits.cut (h : w.Fits cfg complete begun)
    (hgood : ∀ x, w'.working = some x → x.Good)
    (hframes : w'.frames = w.frames) (hbroken : w'.broken = true) :
    w'.Fits cfg complete begun := by
  refine ⟨hframes ▸ h.assembled, hgood, fun hno => ?_,
    h.greeted.keeps fun hno => ?_, hframes ▸ h.small⟩
  · cases hbroken.symm.trans hno
  · cases hbroken.symm.trans hno

/-- A control frame changes no message. -/
theorem Wire.Fits.control {f : Frame UInt8} (h : w.Fits cfg complete begun)
    (hcode : 8 ≤ f.opcode) (hfin : f.fin = true) :
    Wire.Fits cfg { w with frames := w.frames ++ [f] } complete begun := by
  refine ⟨h.assembled.control hcode hfin, h.good, h.pending,
    h.greeted.keeps fun hopen => ⟨hopen, fun x hx _ => hx⟩, ?_⟩
  intro g hf hlt
  rcases List.mem_append.mp hf with hf | hf
  · exact h.small g hf hlt
  · obtain rfl := List.mem_singleton.mp hf
    omega

/-- A connection begins with the hello. -/
theorem fits_connect :
    Wire.Fits cfg ⟨some ⟨sendText cfg.hello, opcodeText, 0⟩, [], false, []⟩
      [] none := by
  have hwhole := whole_sendText cfg.hello
  refine ⟨assembled_nil, ?_, fun _ => (begun_start hwhole).symm, ?_,
    fun f hf => absurd hf List.not_mem_nil⟩
  · rintro x ⟨⟩
    exact good_start hwhole
  · refine .inr ⟨rfl, ?_, fun _ => ⟨_, rfl, rfl, more_start hwhole⟩⟩
    intro m hm
    cases hm

/-- A call begins with nothing of its message sent. -/
theorem Wire.Fits.start {c : Call} (h : w.Fits cfg complete begun)
    (hw : w.working = none) (hc : c.Whole) :
    Wire.Fits cfg { w with working := some ⟨c, c.opcode, 0⟩ } complete
      begun := by
  refine ⟨h.assembled, ?_, ?_, h.greeted.keeps ?_, h.small⟩
  · rintro x ⟨⟩
    exact good_start hc
  · intro hopen
    rw [h.pending hopen, hw]
    exact (begun_start hc).symm
  · intro hopen
    refine ⟨hopen, fun x hx _ => ?_⟩
    cases hw.symm.trans hx

/-- Of the hello, a frame more has been sent, or all of it. -/
theorem Greeted.sent (h : Greeted cfg w complete begun) (hgood : x.Good)
    (hx : w.working = some x) (hopen : w.broken = false)
    (hw' : w'.working = some (x.next (x.frame cfg).payload.length)) :
    Greeted cfg w' (complete
        ++ (if (x.frame cfg).fin = true then [x.call.message] else []))
      (x.next (x.frame cfg).payload.length).begun := by
  rcases h with hhead | hgreet
  · refine .inl ?_
    rw [List.head?_append, hhead]
    rfl
  · obtain ⟨y, hy, hcall, -⟩ := hgreet.sending hopen
    obtain rfl := Option.some.inj (hx.symm.trans hy)
    rw [hgreet.nil, List.nil_append]
    split
    next => exact .inl (congrArg (fun c => some (Call.message c)) hcall)
    next hlast =>
      refine .inr ⟨rfl, fun m hm => ?_, fun _ => ⟨_, hw', hcall, ?_⟩⟩
      · rw [Sending.begun] at hm
        split at hm
        next =>
          obtain rfl := Option.some.inj hm
          exact ⟨congrArg (·.opcode.code) hcall,
            congrArg (·.data) hcall ▸ List.take_prefix _ _⟩
        next => cases hm
      · rw [Sending.frame_fin cfg hgood, decide_eq_true_eq] at hlast
        have hle := Sending.length_frame cfg hgood
        rw [Sending.more_next]
        exact decide_eq_true (by omega)

/-- A frame that is taken whole goes on with the message of the call. -/
theorem Wire.Fits.turn (h : w.Fits cfg complete begun)
    (hx : w.working = some x) (hmore : x.more = true)
    (hopen : w.broken = false) :
    Wire.Fits cfg { w with
        working := some (x.next (x.frame cfg).payload.length)
        frames := w.frames ++ [x.frame cfg] }
      (complete
        ++ (if (x.frame cfg).fin = true then [x.call.message] else []))
      (x.next (x.frame cfg).payload.length).begun := by
  have hgood := h.good x hx
  refine ⟨h.sent hx hmore hopen, ?_, fun _ => rfl,
    h.greeted.sent hgood hx hopen rfl, ?_⟩
  · rintro y ⟨⟩
    exact hgood.next (Nat.le_refl _)
  · intro f hf hlt
    rcases List.mem_append.mp hf with hf | hf
    · exact h.small f hf hlt
    · obtain rfl := List.mem_singleton.mp hf
      exact Sending.length_frame_le

/-- A call that returns its length has sent its message. -/
theorem Wire.Fits.done (h : w.Fits cfg complete begun)
    (hx : w.working = some x) (hmore : x.more = false) :
    Wire.Fits cfg { w with working := none, acked := w.acked ++ [x.call] }
      complete begun := by
  refine ⟨h.assembled, ?_, ?_, h.greeted.keeps ?_, h.small⟩
  · rintro y ⟨⟩
  · intro hopen
    have hend : x.begun = none := by
      rw [Sending.begun, if_neg]
      rintro ⟨-, hlt⟩
      rw [Sending.more, decide_eq_true hlt, Bool.true_or] at hmore
      cases hmore
    rw [h.pending hopen, hx]
    exact hend
  · intro hopen
    refine ⟨hopen, fun y hy hyes => ?_⟩
    obtain rfl := Option.some.inj (hx.symm.trans hy)
    cases hmore.symm.trans hyes

-- ============================================================= finished

/-- The messages that have been sent in full, as the calls have it: those
acknowledged, and the one at work when it has sent everything. -/
def Wire.finished (w : Wire) : List (Message UInt8) :=
  w.acked.map Call.message
    ++ match w.working with
      | some x => if x.more = true then [] else [x.call.message]
      | none => []

/-- Without a call at work, what is finished is what has been acknowledged. -/
theorem Wire.finished_none (hw : w.working = none) :
    w.finished = w.acked.map Call.message := by
  rw [Wire.finished, hw, List.append_nil]

/-- A call with more to send has not finished its message. -/
theorem Wire.finished_more (hx : w.working = some x) (hmore : x.more = true) :
    w.finished = w.acked.map Call.message := by
  rw [Wire.finished, hx]
  dsimp only
  rw [if_pos hmore, List.append_nil]

/-- A call that has sent all adds its message. -/
theorem Wire.finished_end (hx : w.working = some x)
    (hmore : x.more = false) :
    w.finished = w.acked.map Call.message ++ [x.call.message] := by
  rw [Wire.finished, hx]
  dsimp only
  rw [hmore, if_neg Bool.false_ne_true]

/-- With its last frame a message is complete, and it is finished. -/
theorem Wire.finished_sent (hgood : x.Good) (hx : w.working = some x)
    (hmore : x.more = true)
    (hw' : w'.working = some (x.next (x.frame cfg).payload.length))
    (hacked : w'.acked = w.acked) :
    w'.finished = w.finished
      ++ (if (x.frame cfg).fin = true then [x.call.message] else []) := by
  have hfin := Sending.frame_fin cfg hgood
  have hle := Sending.length_frame cfg hgood
  rw [Wire.finished_more hx hmore, ← hacked]
  by_cases hlast : x.widx + (x.frame cfg).payload.length = x.call.data.length
  · rw [hfin, if_pos (decide_eq_true hlast), Wire.finished_end hw']
    · rfl
    · rw [Sending.more_next]
      exact decide_eq_false (by omega)
  · rw [hfin, if_neg fun hd => hlast (of_decide_eq_true hd), List.append_nil]
    refine Wire.finished_more hw' ?_
    rw [Sending.more_next]
    exact decide_eq_true (by omega)

/-- What the peer has is kept in turn by every step, and what is complete
is what is finished. -/
theorem Wire.Step.fits (hs : Wire.Step cfg w w')
    (h : w.Fits cfg complete begun) (hfinished : w.finished = complete) :
    ∃ complete' begun', w'.Fits cfg complete' begun'
      ∧ w'.finished = complete' := by
  cases hs with
  | quiet => exact ⟨complete, begun, h, hfinished⟩
  | cut => exact ⟨complete, begun, h.cut h.good rfl rfl, hfinished⟩
  | control _ hcode hfin =>
      exact ⟨complete, begun, h.control hcode hfin, hfinished⟩
  | connect =>
      exact ⟨[], none, fits_connect,
        Wire.finished_more rfl (more_start (whole_sendText cfg.hello))⟩
  | start hw hc =>
      refine ⟨complete, begun, h.start hw hc, ?_⟩
      rw [Wire.finished_none hw] at hfinished
      exact (Wire.finished_more rfl (more_start hc)).trans hfinished
  | sent hx hmore hopen =>
      refine ⟨_, _, h.turn hx hmore hopen, ?_⟩
      rw [← hfinished]
      exact Wire.finished_sent (h.good _ hx) hx hmore rfl rfl
  | failed hx hmore =>
      refine ⟨complete, begun, h.cut ?_ rfl rfl, ?_⟩
      · rintro y ⟨⟩
      · rw [Wire.finished_more hx hmore] at hfinished
        exact (Wire.finished_none rfl).trans hfinished
  | done hx hmore =>
      refine ⟨complete, begun, h.done hx hmore, ?_⟩
      rw [Wire.finished_end hx hmore] at hfinished
      rw [Wire.finished_none rfl, List.map_append]
      exact hfinished

end SitNChow.Socket
