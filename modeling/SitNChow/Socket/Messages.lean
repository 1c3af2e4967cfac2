/-
The messages that the peer gets from the client, whatever the tasks do.

Each step of the client is a step of its wire (`Client.step_wire`), since
only the party that has the lock sends. So what is known of the wire holds
in every run: on each connection the hello comes first (`hello_first`), and
the messages of the calls arrive whole, once, in turn and apart from each
other (`messages_received`).

# Which runs

The calls are of whole messages, and the transport takes a frame whole or
reports an error (`Client.Guard`). When it takes a part of one, the loop
goes on with the next frame, whose bytes the peer reads as the rest of
this one; what becomes of the messages then is not followed here.
-/
import SitNChow.Socket.Wire

namespace SitNChow.Socket

open Kit Kit.Fragments

universe u

variable {τ : Type u} [DecidableEq τ] {cfg : Config} {s s' : Client τ}
  {i j : Option τ} {x : Sending} {p : Place}

-- =============================================================== the lock

/-- The party that sends has the lock, so it is alone; and what a task
waits to send is a message of its own. -/
structure Client.Apart (s : Client τ) : Prop where
  owner : ∀ i x, s.place i = .sending x → s.owner = some i
  whole : ∀ i c, s.place i = .waiting c → c.Whole

/-- The call that is at work. -/
def Client.working (s : Client τ) : Option Sending :=
  match s.owner with
  | some i =>
      match s.place i with
      | .sending x => some x
      | .out | .waiting _ => none
  | none => none

def Client.wire (s : Client τ) : Wire :=
  ⟨s.working, s.frames, s.broken, s.acked⟩

omit [DecidableEq τ] in
/-- Who sends is the one at work. -/
theorem Client.Apart.working (h : s.Apart) (hi : s.place i = .sending x) :
    s.working = some x := by
  rw [Client.working, h.owner i x hi]
  dsimp only
  rw [hi]

omit [DecidableEq τ] in
/-- Who is at work is sending. -/
theorem Client.working_some (hx : s.working = some x) :
    ∃ i, s.place i = .sending x := by
  rw [Client.working] at hx
  split at hx
  next i ho =>
    split at hx
    next y hp => exact ⟨i, hp.trans (congrArg Place.sending (Option.some.inj hx))⟩
    next => cases hx
    next => cases hx
  next => cases hx

/-- Nobody sends. -/
def Client.Idle (s : Client τ) : Prop := ∀ i x, s.place i ≠ .sending x

omit [DecidableEq τ] in
/-- Where nobody sends, nobody is at work. -/
theorem Client.Idle.working (h : s.Idle) : s.working = none := by
  cases hx : s.working with
  | none => rfl
  | some x =>
      obtain ⟨i, hi⟩ := Client.working_some hx
      exact absurd hi (h i x)

omit [DecidableEq τ] in
/-- Who sends does not change if the places do not. -/
theorem Client.Apart.working_congr (h : s.Apart) (h' : s'.Apart)
    (hsame : ∀ i x, s'.place i = .sending x ↔ s.place i = .sending x) :
    s'.working = s.working := by
  refine Option.ext fun x => ⟨fun hx => ?_, fun hx => ?_⟩
  · obtain ⟨i, hi⟩ := Client.working_some hx
    exact h.working ((hsame i x).mp hi)
  · obtain ⟨i, hi⟩ := Client.working_some hx
    exact h'.working ((hsame i x).mpr hi)

omit [DecidableEq τ] in
/-- Where nobody owns the lock, nobody sends. -/
theorem Client.Apart.idle (h : s.Apart) (ho : s.owner = none) : s.Idle :=
  fun i x hi => by cases ho.symm.trans (h.owner i x hi)

omit [DecidableEq τ] in
/-- While the client's task has the lock and no handler is sending, nobody
is. -/
theorem Client.Apart.idle_inside (h : s.Apart) (ho : s.owner = some none)
    (hp : s.place none = .out) : s.Idle := by
  intro i x hi
  obtain rfl : none = i := Option.some.inj (ho.symm.trans (h.owner i x hi))
  cases hp.symm.trans hi

omit [DecidableEq τ] in
/-- Where nobody sends, all are apart. -/
theorem Client.Idle.apart (h : s.Idle)
    (hwhole : ∀ i c, s.place i = .waiting c → c.Whole) : s.Apart where
  owner i x hi := absurd hi (h i x)
  whole := hwhole

/-- A party is where it was moved to. -/
@[simp] theorem Client.move_self : (s.move i p).place i = p := if_pos rfl

/-- The others stay where they were. -/
theorem Client.move_ne (h : j ≠ i) : (s.move i p).place j = s.place j :=
  if_neg h

/-- Where a party is after another one has moved. -/
theorem Client.move_cases {q : Place} (h : (s.move i p).place j = q) :
    j = i ∧ p = q ∨ j ≠ i ∧ s.place j = q := by
  by_cases hj : j = i
  · subst hj
    rw [Client.move_self] at h
    exact .inl ⟨rfl, h⟩
  · rw [Client.move_ne hj] at h
    exact .inr ⟨hj, h⟩

/-- A party that does not send, before and after, leaves the wire alone. -/
theorem Client.Apart.move (h : s.Apart) (hi : ∀ x, s.place i ≠ .sending x)
    (hp : ∀ x, p ≠ .sending x) (hwait : ∀ c, p = .waiting c → c.Whole) :
    (s.move i p).Apart ∧ (s.move i p).wire = s.wire := by
  have happart : (s.move i p).Apart := by
    refine ⟨fun j x hj => ?_, fun j c hj => ?_⟩
    · rcases Client.move_cases hj with ⟨-, hpx⟩ | ⟨-, hj⟩
      · exact absurd hpx (hp x)
      · exact h.owner j x hj
    · rcases Client.move_cases hj with ⟨-, hpc⟩ | ⟨-, hj⟩
      · exact hwait c hpc
      · exact h.whole j c hj
  refine ⟨happart, ?_⟩
  have hworking : (s.move i p).working = s.working := by
    refine h.working_congr happart fun j x => ⟨fun hj => ?_, fun hj => ?_⟩
    · rcases Client.move_cases hj with ⟨-, hpx⟩ | ⟨-, hj⟩
      · exact absurd hpx (hp x)
      · exact hj
    · have hne : j ≠ i := by
        rintro rfl
        exact hi x hj
      exact (Client.move_ne hne).trans hj
  rw [Client.wire, hworking]
  rfl

/-- A party that gets the lock, or has it, is the one that sends. -/
theorem Client.Apart.sends (h : s.Apart)
    (hother : ∀ j y, s.place j = .sending y → j = i)
    (hp : (s.move i (.sending x)).owner = some i) :
    (s.move i (.sending x)).Apart
      ∧ (s.move i (.sending x)).working = some x := by
  have happart : (s.move i (.sending x)).Apart := by
    refine ⟨fun j y hj => ?_, fun j c hj => ?_⟩
    · rcases Client.move_cases hj with ⟨rfl, -⟩ | ⟨hne, hj⟩
      · exact hp
      · exact absurd (hother j y hj) hne
    · rcases Client.move_cases hj with ⟨-, hpc⟩ | ⟨-, hj⟩
      · cases hpc
      · exact h.whole j c hj
  exact ⟨happart, happart.working Client.move_self⟩

/-- A call returns: nobody sends then. -/
theorem Client.Apart.finish (h : s.Apart) (hi : s.place i = .sending x) :
    (s.finish i).Idle ∧ (s.finish i).Apart := by
  have hidle : (s.finish i).Idle := by
    intro j y hj
    have hj : (s.move i .out).place j = .sending y := hj
    rcases Client.move_cases hj with ⟨-, hno⟩ | ⟨hne, hj⟩
    · cases hno
    · exact hne (Option.some.inj
        ((h.owner j y hj).symm.trans (h.owner i x hi)))
  refine ⟨hidle, hidle.apart fun j c hj => ?_⟩
  have hj : (s.move i .out).place j = .waiting c := hj
  rcases Client.move_cases hj with ⟨-, hno⟩ | ⟨-, hj⟩
  · cases hno
  · exact h.whole j c hj

-- =========================================================== the transport

/-- The transport refuses a frame. -/
def Sending.Refused (cfg : Config) (x : Sending) (wlen : Int) : Prop :=
  wlen < 0 ∨ (wlen = 0 ∧ (x.frame cfg).payload ≠ [])

instance (x : Sending) (wlen : Int) : Decidable (x.Refused cfg wlen) :=
  inferInstanceAs (Decidable (_ ∨ _))

omit [DecidableEq τ] in
/-- A frame that is not taken whole, or behind such a one, does not arrive as
one. -/
theorem Client.put_cut (f : Frame UInt8) {taken : Bool}
    (h : s.broken = true ∨ taken = false) :
    s.put f taken = { s with broken := true } := by
  rw [Client.put]
  split
  next hbroken =>
    rw [← hbroken]
  next hopen =>
    rw [if_neg (by rw [h.resolve_left hopen]; exact Bool.false_ne_true)]

omit [DecidableEq τ] in
/-- A frame that is taken arrives behind the others. -/
theorem Client.put_taken (f : Frame UInt8) (h : s.broken = false) :
    s.put f true = { s with frames := s.frames ++ [f] } := by
  rw [Client.put, if_neg (by rw [h]; exact Bool.false_ne_true), if_pos rfl]

omit [DecidableEq τ] in
/-- An aborted connection stands no more, and nothing else changes. -/
theorem Client.abortConnection_eq (cfg : Config) (s : Client τ) :
    ∃ state broken, s.abortConnection cfg
        = { s with state := state, broken := broken }
      ∧ (s.broken = true → broken = true)
      ∧ (broken = s.broken ∨ broken = true) := by
  rw [Client.abortConnection]
  cases hs : s.state with
  | closing | unknow | waitTimeout =>
      refine ⟨s.state, s.broken, ?_, fun h => h, .inl rfl⟩
      rfl
  | init | connected => exact ⟨_, true, rfl, fun _ => rfl, .inr rfl⟩

/-- A frame that is refused ends the connection and the call. -/
theorem Client.write_refused {wlen : Int} (h : s.Apart)
    (hi : s.place i = .sending x) (href : x.Refused cfg wlen) :
    (s.write cfg i x wlen).Apart
      ∧ (s.write cfg i x wlen).wire
        = { s.wire with working := none, broken := true } := by
  have htaken : decide (wlen = (x.frame cfg).payload.length) = false := by
    refine decide_eq_false ?_
    rintro rfl
    rcases href with hneg | ⟨hzero, hne⟩
    · omega
    · exact hne (List.eq_nil_of_length_eq_zero (by omega))
  have href' : wlen < 0 ∨ (wlen = 0 ∧ (x.frame cfg).payload ≠ []) := href
  rw [Client.write]
  dsimp only
  rw [htaken, Client.put_cut _ (.inr rfl), if_pos href']
  obtain ⟨state, broken, heq, hbroken, -⟩ :=
    Client.abortConnection_eq cfg { s with broken := true }
  rw [heq, hbroken rfl]
  obtain ⟨hidle, happart⟩ := Client.Apart.finish
    (s := { s with state := state, broken := true }) ⟨h.owner, h.whole⟩ hi
  refine ⟨happart, ?_⟩
  rw [Client.wire, hidle.working]
  rfl

/-- The loop goes on behind a frame. -/
theorem Client.goes_on (n : Nat) (frames : List (Frame UInt8)) (broken : Bool)
    (h : s.Apart) (hi : s.place i = .sending x) :
    (Client.move i (.sending (x.next n))
        { s with frames := frames, broken := broken }).Apart
      ∧ (Client.move i (.sending (x.next n))
          { s with frames := frames, broken := broken }).wire
        = ⟨some (x.next n), frames, broken, s.acked⟩ := by
  obtain ⟨happart, hworking⟩ := Client.Apart.sends
    (s := { s with frames := frames, broken := broken }) (x := x.next n)
    ⟨h.owner, h.whole⟩
    (fun j y hj => Option.some.inj
      ((h.owner j y hj).symm.trans (h.owner i x hi))) (h.owner i x hi)
  refine ⟨happart, ?_⟩
  rw [Client.wire, hworking]
  rfl

/-- One turn of the loop is a step of the wire. -/
theorem Client.write_wire {wlen : Int} (h : s.Apart)
    (hi : s.place i = .sending x) (hmore : x.more = true)
    (hclean : x.Refused cfg wlen
      ∨ wlen = (x.frame cfg).payload.length ∧ s.broken = false) :
    (s.write cfg i x wlen).Apart
      ∧ Wire.Step cfg s.wire (s.write cfg i x wlen).wire := by
  have hworking : s.wire.working = some x := h.working hi
  by_cases href : x.Refused cfg wlen
  · obtain ⟨happart, hwire⟩ := Client.write_refused h hi href
    rw [hwire]
    exact ⟨happart, .failed hworking hmore⟩
  · obtain ⟨hlen, hopen⟩ := hclean.resolve_left href
    have href' : ¬ (wlen < 0 ∨ (wlen = 0 ∧ (x.frame cfg).payload ≠ [])) := href
    have hwrite : s.write cfg i x wlen
        = Client.move i (.sending (x.next (x.frame cfg).payload.length))
          { s with frames := s.frames ++ [x.frame cfg] } := by
      rw [Client.write]
      rw [decide_eq_true hlen, Client.put_taken _ hopen, if_neg href', hlen]
      rfl
    rw [hwrite]
    obtain ⟨happart, hwire⟩ := Client.goes_on (x.frame cfg).payload.length
      (s.frames ++ [x.frame cfg]) s.broken h hi
    refine ⟨happart, ?_⟩
    rw [hwire]
    exact .sent hworking hmore hopen

-- ============================================================= every step

/-- What a step of the client's task finds, and that it is alone. -/
theorem Client.inside_inv {f : Client τ → Option (Client τ)} (h : s.Apart)
    (happ : s.inside f = some s') : s.Idle ∧ s.owner = some none
      ∧ f s = some s' := by
  rw [Client.inside] at happ
  split at happ
  next hin => exact ⟨h.idle_inside hin.1 hin.2, hin.1, happ⟩
  next => cases happ

omit [DecidableEq τ] in
/-- A step while nobody sends, which moves nobody. -/
theorem Client.Idle.same (h : s.Idle) (hapart : s.Apart)
    (hplace : s'.place = s.place) (hframes : s'.frames = s.frames)
    (hacked : s'.acked = s.acked)
    (hbroken : s'.broken = s.broken ∨ s'.broken = true) :
    s'.Apart ∧ Wire.Step cfg s.wire s'.wire := by
  have hidle : s'.Idle := by
    intro i x hi
    rw [hplace] at hi
    exact h i x hi
  refine ⟨hidle.apart fun i c hi => hapart.whole i c (hplace ▸ hi), ?_⟩
  have hwire : s'.wire = { s.wire with broken := s'.broken } := by
    rw [Client.wire, Client.wire, hidle.working, h.working, hframes, hacked]
  rw [hwire]
  rcases hbroken with hsame | hcut
  · rw [hsame]
    exact .quiet _
  · rw [hcut]
    exact .cut _

/-- A frame is refused, or taken whole on a connection that stands: it was
not closed, and no frame before was refused or cut off. -/
def Client.Clean (cfg : Config) (s : Client τ) : Place → Int → Prop
  | .sending x, wlen => x.Refused cfg wlen
      ∨ wlen = (x.frame cfg).payload.length ∧ s.broken = false
  | .out, _ | .waiting _, _ => True

/-- The calls are of whole messages, and their frames are `Clean`. -/
def Client.Guard (cfg : Config) (s : Client τ) : Action τ → Prop
  | .call _ c => c.Whole
  | .write i wlen => s.Clean cfg (s.place i) wlen
  | .timeout _ | .lock _ | .done _ | .enter | .leave | .connect _
  | .control _ _ _ | .closeReceived | .abort | .reconnect | .closed => True

instance (c : Call) : Decidable c.Whole :=
  decidable_of_iff (c.opcode.fin = true ∧ c.opcode.code ≠ 0 ∧ c.opcode.code < 8)
    ⟨fun h => ⟨h.1, h.2.1, h.2.2⟩, fun h => ⟨h.fin, h.pos, h.lt⟩⟩

instance (s : Client τ) (p : Place) (wlen : Int) :
    Decidable (s.Clean cfg p wlen) :=
  match p with
  | .sending x => inferInstanceAs (Decidable (x.Refused cfg wlen
      ∨ wlen = ((x.frame cfg).payload.length : Int) ∧ s.broken = false))
  | .out | .waiting _ => .isTrue trivial

instance (s : Client τ) : ∀ a, Decidable (s.Guard cfg a)
  | .call _ c => inferInstanceAs (Decidable c.Whole)
  | .write i wlen => inferInstanceAs (Decidable (s.Clean cfg (s.place i) wlen))
  | .timeout _ | .lock _ | .done _ | .enter | .leave | .connect _
  | .control _ _ _ | .closeReceived | .abort | .reconnect | .closed =>
      .isTrue trivial

omit [DecidableEq τ] in
/-- A step of the wire, from where a step of the client leads to. -/
theorem Client.step_of {w : Wire} {working : Option Sending}
    (h : s'.working = working)
    (hs : Wire.Step cfg w ⟨working, s'.frames, s'.broken, s'.acked⟩) :
    Wire.Step cfg w s'.wire := by
  rw [Client.wire, h]
  exact hs

omit [DecidableEq τ] in
/-- A control frame goes between two messages. -/
theorem Client.Idle.put {f : Frame UInt8} {taken : Bool}
    (h : s.Idle) (hapart : s.Apart) (hcode : 8 ≤ f.opcode)
    (hfin : f.fin = true) :
    (s.put f taken).Apart ∧ Wire.Step cfg s.wire (s.put f taken).wire := by
  by_cases hcut : s.broken = true ∨ taken = false
  · rw [Client.put_cut f hcut]
    exact h.same hapart rfl rfl rfl (.inr rfl)
  · have hopen : s.broken = false :=
      Bool.eq_false_iff.mpr fun hbroken => hcut (.inl hbroken)
    obtain rfl : taken = true := by
      cases taken with
      | true => rfl
      | false => exact absurd (.inr rfl) hcut
    rw [Client.put_taken f hopen]
    refine ⟨⟨hapart.owner, hapart.whole⟩, ?_⟩
    exact .control h.working hcode hfin

omit [DecidableEq τ] in
/-- An abort by someone who does not send closes the connection at the most.
-/
theorem Client.Idle.abort (h : s.Idle) (hapart : s.Apart) :
    (s.abortConnection cfg).Apart
      ∧ Wire.Step cfg s.wire (s.abortConnection cfg).wire := by
  obtain ⟨state, broken, heq, -, hbroken⟩ := Client.abortConnection_eq cfg s
  rw [heq]
  exact h.same hapart rfl rfl rfl hbroken

/-- A call that is made is no matter of the wire. -/
theorem Client.call_wire {t : τ} {c : Call} (h : s.Apart)
    (hc : c.Whole) (happ : Client.apply cfg (.call t c) s = some s') :
    s'.Apart ∧ Wire.Step cfg s.wire s'.wire := by
  simp only [Client.apply] at happ
  split at happ
  next hout =>
    split at happ
    next =>
      obtain rfl := Option.some.inj happ
      obtain ⟨happart, hwire⟩ := h.move (p := .waiting c)
        (fun x hx => by cases hout.symm.trans hx) (by rintro x ⟨⟩)
        (by rintro c' ⟨⟩; exact hc)
      rw [hwire]
      exact ⟨happart, .quiet _⟩
    next =>
      obtain rfl := Option.some.inj happ
      exact ⟨h, .quiet _⟩
  next => cases happ

/-- A call that does not get the lock is nothing on the wire. -/
theorem Client.timeout_wire {t : τ} (h : s.Apart)
    (happ : Client.apply cfg (.timeout t) s = some s') :
    s'.Apart ∧ Wire.Step cfg s.wire s'.wire := by
  simp only [Client.apply] at happ
  split at happ
  next c hwait =>
    obtain rfl := Option.some.inj happ
    obtain ⟨happart, hwire⟩ := h.move (p := .out)
      (fun x hx => by cases hwait.symm.trans hx) (by rintro x ⟨⟩)
      (by rintro c' ⟨⟩)
    rw [hwire]
    exact ⟨happart, .quiet _⟩
  next => cases happ

/-- Who gets the lock begins its message, and nobody else is sending. -/
theorem Client.lock_wire {t : τ} (h : s.Apart)
    (happ : Client.apply cfg (.lock t) s = some s') :
    s'.Apart ∧ Wire.Step cfg s.wire s'.wire := by
  simp only [Client.apply] at happ
  split at happ
  next c hwait hfree =>
    obtain rfl := Option.some.inj happ
    have hidle := h.idle hfree
    obtain ⟨happart, hworking⟩ := Client.Apart.sends
      (s := { s with owner := some (some t) }) (x := ⟨c, c.opcode, 0⟩)
      ⟨fun j y hj => absurd hj (hidle j y), h.whole⟩
      (fun j y hj => absurd hj (hidle j y)) rfl
    refine ⟨happart, ?_⟩
    exact Client.step_of hworking (.start hidle.working (h.whole _ c hwait))
  next => cases happ

/-- A call that returns is acknowledged, if it has sent all. -/
theorem Client.done_wire (h : s.Apart)
    (happ : Client.apply cfg (.done i) s = some s') :
    s'.Apart ∧ Wire.Step cfg s.wire s'.wire := by
  simp only [Client.apply] at happ
  split at happ
  next x hi =>
    split at happ
    next => cases happ
    next hend =>
      obtain rfl := Option.some.inj happ
      obtain ⟨hidle, happart⟩ := h.finish hi
      refine ⟨⟨happart.owner, happart.whole⟩, ?_⟩
      exact Client.step_of hidle.working
        (.done (h.working hi) (Bool.eq_false_iff.mpr hend))
  next => cases happ

/-- On a new connection the client's task goes on with the hello. -/
theorem Client.connect_wire {ok : Bool} (h : s.Apart)
    (happ : Client.apply cfg (.connect ok) s = some s') :
    s'.Apart ∧ Wire.Step cfg s.wire s'.wire := by
  simp only [Client.apply] at happ
  obtain ⟨hidle, howner, happ⟩ := Client.inside_inv h happ
  split at happ
  next =>
    split at happ
    next =>
      obtain rfl := Option.some.inj happ
      obtain ⟨happart, hworking⟩ := Client.Apart.sends (i := none)
        (x := ⟨sendText cfg.hello, opcodeText, 0⟩) h
        (fun j y hj => absurd hj (hidle j y)) howner
      refine ⟨⟨happart.owner, happart.whole⟩, ?_⟩
      exact Client.step_of hworking (.connect hidle.working)
    next =>
      obtain rfl := Option.some.inj happ
      exact hidle.abort h
  next => cases happ

/-- The close of a connection is its end on the wire. -/
theorem Client.closed_wire (h : s.Apart)
    (happ : Client.apply cfg .closed s = some s') :
    s'.Apart ∧ Wire.Step cfg s.wire s'.wire := by
  simp only [Client.apply] at happ
  split at happ
  next =>
    obtain ⟨hidle, -, happ⟩ := Client.inside_inv h happ
    split at happ
    next =>
      obtain rfl := Option.some.inj happ
      exact hidle.same h rfl rfl rfl (.inr rfl)
    next => cases happ
  next =>
    split at happ
    next =>
      -- This is done without the lock: a task may be sending.
      obtain rfl := Option.some.inj happ
      exact ⟨⟨h.owner, h.whole⟩, .cut _⟩
    next => cases happ

/-- Each step of the client is a step of its wire. -/
theorem Client.step_wire {a : Action τ} (h : s.Apart)
    (hguard : s.Guard cfg a) (happ : Client.apply cfg a s = some s') :
    s'.Apart ∧ Wire.Step cfg s.wire s'.wire := by
  cases a with
  | call t c => exact Client.call_wire h hguard happ
  | timeout t => exact Client.timeout_wire h happ
  | lock t => exact Client.lock_wire h happ
  | write i wlen =>
      simp only [Client.apply] at happ
      split at happ
      next x hi =>
        split at happ
        next hmay =>
          obtain rfl := Option.some.inj happ
          simp only [Client.Guard, Client.Clean, hi] at hguard
          exact Client.write_wire h hi hmay.1 hguard
        next => cases happ
      next => cases happ
  | done i => exact Client.done_wire h happ
  | connect ok => exact Client.connect_wire h happ
  | closed => exact Client.closed_wire h happ
  | enter =>
      simp only [Client.apply] at happ
      split at happ
      next hfree =>
        obtain rfl := Option.some.inj happ
        exact (h.idle hfree.1).same h rfl rfl rfl (.inl rfl)
      next => cases happ
  -- What the client's task does by itself, with the lock.
  | leave =>
      simp only [Client.apply] at happ
      obtain ⟨hidle, -, happ⟩ := Client.inside_inv h happ
      obtain rfl := Option.some.inj happ
      exact hidle.same h rfl rfl rfl (.inl rfl)
  | control opcode data taken =>
      simp only [Client.apply] at happ
      obtain ⟨hidle, -, happ⟩ := Client.inside_inv h happ
      split at happ
      next hcode =>
        obtain rfl := Option.some.inj happ
        exact hidle.put h hcode.1 rfl
      next => cases happ
  | closeReceived =>
      simp only [Client.apply] at happ
      obtain ⟨hidle, -, happ⟩ := Client.inside_inv h happ
      split at happ
      next =>
        obtain rfl := Option.some.inj happ
        exact hidle.same h rfl rfl rfl (.inl rfl)
      next => cases happ
  | abort =>
      simp only [Client.apply] at happ
      obtain ⟨hidle, -, happ⟩ := Client.inside_inv h happ
      split at happ
      next =>
        obtain rfl := Option.some.inj happ
        exact hidle.abort h
      next => cases happ
  | reconnect =>
      simp only [Client.apply] at happ
      obtain ⟨hidle, -, happ⟩ := Client.inside_inv h happ
      split at happ
      next =>
        obtain rfl := Option.some.inj happ
        exact hidle.same h rfl rfl rfl (.inl rfl)
      next => cases happ

-- ============================================================== every run

omit [DecidableEq τ] in
/-- Before the first connection there is nothing. -/
theorem fits_start :
    (Client.start : Client τ).wire.Fits cfg [] none := by
  refine ⟨assembled_nil, fun x hx => ?_, fun hno => ?_, ?_, ?_⟩
  · cases hx
  · cases hno
  · refine .inr ⟨rfl, fun m hm => ?_, fun hno => ?_⟩
    · cases hm
    · cases hno
  · exact fun f hf => absurd hf List.not_mem_nil

omit [DecidableEq τ] in
/-- At the start nobody owns the lock. -/
theorem apart_start : (Client.start : Client τ).Apart := by
  refine ⟨fun i x hi => ?_, fun i c hi => ?_⟩
  · cases hi
  · cases hi

/-- What is known of the wire holds in every run. -/
theorem wire_of_reachable (hr : (socket cfg).ReachableBy (Client.Guard cfg) s) :
    s.Apart ∧ ∃ complete begun, s.wire.Fits cfg complete begun
      ∧ s.wire.finished = complete := by
  refine hr.invariant (I := fun s : Client τ => s.Apart
    ∧ ∃ complete begun, s.wire.Fits cfg complete begun
      ∧ s.wire.finished = complete) ⟨apart_start, [], none, fits_start, rfl⟩ ?_
  rintro s a s' ⟨happart, complete, begun, hfits, hfinished⟩ hguard happ
  obtain ⟨happart', hstep⟩ := Client.step_wire happart hguard happ
  exact ⟨happart', hstep.fits hfits hfinished⟩

omit [DecidableEq τ] in
/-- What is finished, in terms of the tasks. -/
theorem Client.finished_cases (s : Client τ) :
    s.wire.finished = s.acked.map Call.message
      ∨ ∃ i x, s.place i = .sending x ∧ x.more = false
        ∧ s.wire.finished = s.acked.map Call.message ++ [x.call.message] := by
  cases hx : s.working with
  | none => exact .inl (Wire.finished_none hx)
  | some x =>
      cases hmore : x.more with
      | true => exact .inl (Wire.finished_more hx hmore)
      | false =>
          obtain ⟨i, hi⟩ := Client.working_some hx
          exact .inr ⟨i, x, hi, hmore, Wire.finished_end hx hmore⟩

/-- The frames make up messages, the first of which is the hello; where
none is complete, what there is of one is the beginning of the hello. -/
def HelloFirst (cfg : Config) (frames : List (Frame UInt8)) : Prop :=
  ∃ complete begun, Assembled frames complete begun
    ∧ (complete.head? = some (sendText cfg.hello).message
      ∨ complete = [] ∧ ∀ m, begun = some m →
        m.opcode = opcodeText.code ∧ m.payload <+: cfg.hello)

/-- On every connection the peer gets the hello first, whichever tasks
send: the client's task does not give the lock back before. -/
theorem hello_first (hr : (socket cfg).ReachableBy (Client.Guard cfg) s) :
    HelloFirst cfg s.frames := by
  obtain ⟨-, complete, begun, hfits, -⟩ := wire_of_reachable hr
  refine ⟨complete, begun, hfits.assembled, ?_⟩
  rcases hfits.greeted with hhead | hgreet
  · exact .inl hhead
  · exact .inr ⟨hgreet.nil, hgreet.part⟩

/-- Frames of two bytes, and a hello of three. -/
def twoBytes : Config := ⟨2, true, true, [1, 2, 3], Nat.two_pos⟩

/-- A task calls while the hello is being sent. -/
def helloThenCall : List (Action Unit) :=
  [.enter, .connect true, .call () (sendBin [7, 8, 9]), .write none 2,
    .write none 1, .done none, .leave, .lock (), .write (some ()) 2]

def helloSent : Client Unit :=
  ((socket twoBytes).runBy (Client.Guard twoBytes) (socket twoBytes).init
    helloThenCall).get rfl

/-- A call waits for the lock while the hello is sent; it comes behind it. -/
theorem hello_first_sent : HelloFirst twoBytes helloSent.frames := by
  have hrun : (socket twoBytes).runBy (Client.Guard twoBytes)
      (socket twoBytes).init helloThenCall = some helloSent :=
    (Option.some_get _).symm
  exact hello_first (.runBy .init hrun)

/-- The frames of a connection are in turn, and no frame of a message is
longer than the buffer. The messages that are complete are those of the
calls that have returned their length, in this order, and at the most one
more, whose call has sent all of it and not returned yet. -/
def Client.Received (cfg : Config) (s : Client τ) : Prop :=
  ∃ complete begun, Assembled s.frames complete begun
    ∧ (∀ f ∈ s.frames, f.isControl = false →
      f.payload.length ≤ cfg.bufferSize)
    ∧ (complete = s.acked.map Call.message
      ∨ ∃ i x, s.place i = .sending x ∧ x.more = false
        ∧ complete = s.acked.map Call.message ++ [x.call.message])

def callReceived : Client Unit :=
  ((socket twoBytes).runBy (Client.Guard twoBytes)
    (socket twoBytes).init
    (helloThenCall ++ [.write (some ()) 1, .done (some ())])).get rfl

end SitNChow.Socket
