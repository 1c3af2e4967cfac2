/-
The WebSocket client (esp_websocket_client.c): its task, which makes the
connection, and the tasks that send messages on it.

# The lock

All of them share `client->lock`, which is recursive: the client's task
holds it while an event handler runs, and the handler may send a message
of its own. That a connection exists is looked at before the lock is
taken, so a message may come to be sent on a later connection than it was
meant for, or on none.

# The wire

`esp_websocket_client_send_with_exact_opcode` cuts a message into frames of
at most `buffer_size` bytes. How many bytes of a frame the transport takes
is up to it (`wlen`): all of them, or fewer, or it reports an error.
`frames` are those that the peer has got whole on a connection that still
stands. A frame that is refused or not taken whole leaves the peer in the
middle of it, and a connection may be closed; what the peer makes of the
bytes behind that is not in the model (`broken`).
-/
import SitNChow.Kit.Fragments
import SitNChow.Kit.Machine

namespace SitNChow.Socket

open Kit Kit.Fragments

universe u

/-- `websocket_client_state_t` -/
inductive ClientState where
  | unknow
  | init
  | connected
  | waitTimeout
  | closing
deriving DecidableEq

/-- `ws_transport_opcodes_t`: the code, and `WS_TRANSPORT_OPCODES_FIN`. -/
structure Opcode where
  code : Nat
  fin : Bool
deriving DecidableEq

def opcodeText : Opcode := ⟨1, true⟩
def opcodeBinary : Opcode := ⟨2, true⟩

/-- The arguments of `esp_websocket_client_send_with_exact_opcode`. -/
structure Call where
  opcode : Opcode
  data : List UInt8
deriving DecidableEq

/-- `esp_websocket_client_send_text` -/
def sendText (data : List UInt8) : Call := ⟨opcodeText, data⟩

/-- `esp_websocket_client_send_bin` -/
def sendBin (data : List UInt8) : Call := ⟨opcodeBinary, data⟩

/-- The message that is to be sent. -/
def Call.message (c : Call) : Message UInt8 := ⟨c.opcode.code, c.data⟩

/-- A call in its loop. -/
structure Sending where
  call : Call
  opcode : Opcode
  widx : Nat
deriving DecidableEq

/-- The loop's condition, `widx < len || opcode`. -/
def Sending.more (x : Sending) : Bool :=
  decide (x.widx < x.call.data.length) || decide (x.opcode ≠ ⟨0, false⟩)

/-- The client's settings: the size of a frame, whether it connects again,
and the text that its handler sends at `WEBSOCKET_EVENT_CONNECTED`
(`ws_send_hello`). -/
structure Config where
  bufferSize : Nat
  autoReconnect : Bool
  closeReconnect : Bool
  hello : List UInt8
  bufferSize_pos : 0 < bufferSize

/-- The frame that the loop sends next. -/
def Sending.frame (cfg : Config) (x : Sending) : Frame UInt8 :=
  let needWrite := x.call.data.length - x.widx
  if cfg.bufferSize < needWrite then
    ⟨x.opcode.code, false, (x.call.data.drop x.widx).take cfg.bufferSize⟩
  else
    ⟨x.opcode.code, x.opcode.fin || x.call.opcode.fin, x.call.data.drop x.widx⟩

/-- Where a task is: not in a call; waiting for the lock; or sending. -/
inductive Place where
  | out
  | waiting (call : Call)
  | sending (x : Sending)
deriving DecidableEq

/-- The client. The parties are the client's own task (`none`) and the
others. `frames` are those that the peer has got on the connection before
it was `broken`, and `acked` the calls that have returned their length
since it was made. -/
structure Client (τ : Type u) where
  state : ClientState
  owner : Option (Option τ)
  place : Option τ → Place
  frames : List (Frame UInt8)
  broken : Bool
  acked : List Call

variable {τ : Type u} [DecidableEq τ]

/-- `esp_websocket_client_start` -/
def Client.start : Client τ where
  state := .init
  owner := none
  place _ := .out
  frames := []
  broken := true
  acked := []

/-- A step. A task calls, gives up waiting for the lock, or gets it; a
party that sends executes its loop once, the transport taking `wlen` bytes
(a negative number is an error), or is done. The client's task takes the
lock and gives it back; while it has it, it may connect, send a control
frame, which the transport may not take whole, find the connection closed
or failed, and wait for the time to connect again. When it is not to
connect again it ends a connection that was closed without the lock. -/
inductive Action (τ : Type u) where
  | call (t : τ) (c : Call)
  | timeout (t : τ)
  | lock (t : τ)
  | write (i : Option τ) (wlen : Int)
  | done (i : Option τ)
  | enter
  | leave
  | connect (ok : Bool)
  | control (opcode : Nat) (data : List UInt8) (taken : Bool)
  | closeReceived
  | abort
  | reconnect
  | closed

variable (cfg : Config)

def Client.move (i : Option τ) (p : Place) (s : Client τ) : Client τ :=
  { s with place := fun j => if j = i then p else s.place j }

/-- `esp_transport_close` -/
def Client.close (state : ClientState) (s : Client τ) : Client τ :=
  { s with state := state, broken := true }

/-- `esp_websocket_client_abort_connection` -/
def Client.abortConnection (s : Client τ) : Client τ :=
  match s.state with
  | .closing | .unknow | .waitTimeout => s
  | .init | .connected =>
      s.close (if cfg.autoReconnect = true then .waitTimeout else .unknow)

/-- A frame goes to the transport, which takes it whole or does not. -/
def Client.put (f : Frame UInt8) (taken : Bool) (s : Client τ) : Client τ :=
  if s.broken = true then s
  else if taken = true then { s with frames := s.frames ++ [f] }
  else { s with broken := true }

/-- A call returns: the lock is given back, by the client's own task only
as often as it was taken. -/
def Client.finish (i : Option τ) (s : Client τ) : Client τ :=
  { s.move i .out with owner := if i = none then s.owner else none }

/-- The loop of `esp_websocket_client_send_with_exact_opcode`, once. -/
def Client.write (i : Option τ) (x : Sending) (wlen : Int) (s : Client τ) :
    Client τ :=
  let f := x.frame cfg
  let s := s.put f (decide (wlen = f.payload.length))
  if wlen < 0 ∨ (wlen = 0 ∧ f.payload ≠ []) then
    (s.abortConnection cfg).finish i
  else
    s.move i (.sending { x with
      opcode := ⟨0, false⟩, widx := x.widx + wlen.toNat })

/-- What the client's task does while it has the lock and no handler is
sending. -/
def Client.inside (f : Client τ → Option (Client τ)) (s : Client τ) :
    Option (Client τ) :=
  if s.owner = some none ∧ s.place none = .out then f s else none

def Client.apply : Action τ → Client τ → Option (Client τ)
  | .call t c, s =>
      if s.place (some t) = .out then
        if s.state = .connected then some (s.move (some t) (.waiting c))
        else some s
      else none
  | .timeout t, s =>
      match s.place (some t) with
      | .waiting _ => some (s.move (some t) .out)
      | _ => none
  | .lock t, s =>
      match s.place (some t), s.owner with
      | .waiting c, none => some { s.move (some t) (.sending ⟨c, c.opcode, 0⟩)
          with owner := some (some t) }
      | _, _ => none
  | .write i wlen, s =>
      match s.place i with
      | .sending x =>
          if x.more = true ∧ wlen ≤ (x.frame cfg).payload.length then
            some (s.write cfg i x wlen)
          else none
      | _ => none
  | .done i, s =>
      match s.place i with
      | .sending x =>
          if x.more = true then none
          else some { s.finish i with acked := s.acked ++ [x.call] }
      | _ => none
  | .enter, s =>
      if s.owner = none ∧ s.state ≠ .unknow then
        some { s with owner := some none }
      else none
  | .leave, s => s.inside fun s => some { s with owner := none }
  | .connect ok, s => s.inside fun s =>
      if s.state = .init then
        if ok = true then
          some { s.move none (.sending ⟨sendText cfg.hello, opcodeText, 0⟩) with
            state := .connected, frames := [], broken := false, acked := [] }
        else some (s.abortConnection cfg)
      else none
  | .control opcode data taken, s => s.inside fun s =>
      if 8 ≤ opcode ∧ (s.state = .connected ∨ s.state = .closing) then
        some (s.put ⟨opcode, true, data⟩ taken)
      else none
  | .closeReceived, s => s.inside fun s =>
      if s.state = .connected then some { s with state := .closing } else none
  | .abort, s => s.inside fun s =>
      if s.state = .connected then some (s.abortConnection cfg) else none
  | .reconnect, s => s.inside fun s =>
      if s.state = .waitTimeout then some { s with state := .init } else none
  | .closed, s =>
      if cfg.closeReconnect = true then s.inside fun s =>
        if s.state = .closing then some (s.close .waitTimeout) else none
      else if s.owner ≠ some none ∧ s.state = .closing then
        some (s.close .unknow)
      else none

/-- The client with the tasks that use it. -/
def socket : Machine (Client τ) (Action τ) := ⟨Client.start, Client.apply cfg⟩

end SitNChow.Socket
