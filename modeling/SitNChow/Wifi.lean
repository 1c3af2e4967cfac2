/-
The WiFi bring-up (app_wifi.c): `app_wifi_main`, which waits for an
event group, and `event_handler`, which sets its bit.

# The group's life

`app_wifi_main` creates the group, registers the handlers, waits for the
connected bit, deletes the group and clears `s_wifi_event_group`. The
handlers stay registered. `event_handler` runs on the event loop's task;
on `IP_EVENT_STA_GOT_IP` it reads the handle and calls
`xEventGroupSetBits` with it, two steps between which the main task may
delete the group.

`GroupLive` says that no such call meets a dead handle. `LiveDelivery`
is the condition on deliveries and on the delete under which it holds,
and `group_live_iff` says that the condition is exact.
-/
import SitNChow.Kit.Machine

namespace SitNChow.Wifi

open Kit

-- ============================================================ the code

/-- The events `event_handler` is registered for. -/
inductive Event where
  | provStart
  | provCredRecv
  | provCredFail
  | provCredSuccess
  | provEnd
  | provOther
  | staStart
  | staDisconnected
  | wifiOther
  | staGotIp
deriving DecidableEq

/-- The event bases, each registered on its own. -/
inductive Base where
  | prov
  | wifi
  | ip
deriving DecidableEq

def Event.base : Event → Base
  | .provStart | .provCredRecv | .provCredFail | .provCredSuccess
  | .provEnd | .provOther => .prov
  | .staStart | .staDisconnected | .wifiOther => .wifi
  | .staGotIp => .ip

/-- The calls into the WiFi stack that a handler run makes. -/
inductive StackCall where
  | connect
  | resetSmStateOnFailure
  | deinit
deriving DecidableEq

/-- What `event_handler` calls for an event, the event group apart. -/
def Event.stackCall : Event → Option StackCall
  | .provCredFail => some .resetSmStateOnFailure
  | .provEnd => some .deinit
  | .staStart | .staDisconnected => some .connect
  | _ => none

/-- Where `app_wifi_main` is. The two ways of starting the station (BLE
provisioning, or the stored credentials) are both `start`. -/
inductive MainPc where
  | create
  | registerProv
  | registerWifi
  | registerIp
  | start
  | wait
  | delete
  | clear
  | returned
deriving DecidableEq

/-- Where the event task is: between events, or in `event_handler` about
to call `xEventGroupSetBits` with the handle it has read. -/
inductive HandlerPc where
  | idle
  | setBits (group : Option Nat)
deriving DecidableEq

/-- The system: both tasks, `s_wifi_event_group`, the group that exists,
its connected bit, the handlers registered, the stack calls made (newest
first), and whether a `xEventGroupSetBits` call has met a dead handle. -/
structure State where
  main : MainPc
  handler : HandlerPc
  group : Option Nat
  live : Option Nat
  connected : Bool
  registered : Base → Bool
  calls : List StackCall
  deadCall : Bool

def State.init : State where
  main := .create
  handler := .idle
  group := none
  live := none
  connected := false
  registered := fun _ => false
  calls := []
  deadCall := false

/-- The steps: `app_wifi_main` (`ok` is the outcome of
`xEventGroupCreate`), a delivery, and the handler's call. -/
inductive Action where
  | main (ok : Bool)
  | deliver (e : Event)
  | setBits
deriving DecidableEq

/-- `esp_event_handler_register` for one base. -/
def State.register (b : Base) (s : State) : State :=
  { s with registered := fun b' => if b' = b then true else s.registered b' }

/-- One step of `app_wifi_main`. It waits for the bit of the group it
has created; with no group the wait is an assertion failure. -/
def State.mainStep (ok : Bool) (s : State) : Option State :=
  match s.main with
  | .create =>
      let group := if ok then some 0 else none
      some { s with main := .registerProv, group := group, live := group }
  | .registerProv => some { s.register .prov with main := .registerWifi }
  | .registerWifi => some { s.register .wifi with main := .registerIp }
  | .registerIp => some { s.register .ip with main := .start }
  | .start => some { s with main := .wait }
  | .wait =>
      if s.group.isSome && s.connected then some { s with main := .delete }
      else none
  | .delete => some { s with main := .clear, live := none }
  | .clear => some { s with main := .returned, group := none }
  | .returned => none

/-- The event loop delivers an event: the handler runs up to its return,
or up to its `xEventGroupSetBits` call. -/
def State.deliver (e : Event) (s : State) : Option State :=
  if s.handler = .idle ∧ s.registered e.base = true then
    some { s with
      handler := if e = .staGotIp then .setBits s.group else .idle
      calls := e.stackCall.toList ++ s.calls }
  else none

/-- `xEventGroupSetBits(group, WIFI_CONNECTED_BIT)`: sets the bit of a
live group; a dead handle is recorded. -/
def State.setBits (s : State) : Option State :=
  match s.handler with
  | .setBits group =>
      if group.isSome && group = s.live then
        some { s with handler := .idle, connected := true }
      else some { s with handler := .idle, deadCall := true }
  | .idle => none

/-- The transition. -/
def State.apply : Action → State → Option State
  | .main ok, s => s.mainStep ok
  | .deliver e, s => s.deliver e
  | .setBits, s => s.setBits

/-- WiFi bring-up as a machine. -/
def wifi : Machine State Action where
  init := State.init
  apply := State.apply

-- ========================================================== the property

/-- No `xEventGroupSetBits` call has met a dead handle, and one that the
handler is about to make meets a live one. -/
def GroupLive (s : State) : Prop :=
  s.deadCall = false
    ∧ ∀ group, s.handler = .setBits group →
        group.isSome = true ∧ group = s.live

/-- GOT_IP is delivered only while `app_wifi_main` has a group it has
not deleted, and the group is not deleted while the handler has the
handle in hand. -/
def LiveDelivery (s : State) : Action → Prop
  | .deliver e =>
      e = .staGotIp → s.group.isSome = true ∧ s.main ≠ .clear
  | .main _ => s.main = .delete → s.handler = .idle
  | .setBits => True

variable {s s' : State}

-- ============================================================ the proof

/-- How the handle relates to the group: they agree, except between the
delete and the clearing of the handle. -/
structure HandleTracked (s : State) : Prop where
  before : s.main = .create → s.live = none
  agree : s.main ≠ .clear → s.group = s.live
  dead : s.main = .clear → s.live = none

theorem handleTracked_init : HandleTracked State.init where
  before := fun _ => rfl
  agree := fun _ => rfl
  dead := fun _ => rfl

/-- What a delivery does: it needs an idle handler, and GOT_IP alone
takes the handle in hand. -/
theorem State.deliver_cases {e : Event} (h : s.deliver e = some s') :
    s.handler = .idle ∧ s'.main = s.main ∧ s'.group = s.group
      ∧ s'.live = s.live ∧ s'.deadCall = s.deadCall
      ∧ s'.handler = if e = .staGotIp then .setBits s.group else .idle := by
  unfold State.deliver at h
  split at h
  · next hg =>
    rw [← Option.some.inj h]
    exact ⟨hg.1, rfl, rfl, rfl, rfl, rfl⟩
  · cases h

/-- What the handler's call does. -/
theorem State.setBits_cases (h : s.setBits = some s') :
    ∃ group, s.handler = .setBits group ∧ s'.main = s.main
      ∧ s'.group = s.group ∧ s'.live = s.live ∧ s'.handler = .idle
      ∧ s'.deadCall = (s.deadCall || !(group.isSome && group = s.live)) := by
  unfold State.setBits at h
  split at h
  · next group hh =>
    refine ⟨group, hh, ?_⟩
    split at h
    · next hl =>
      rw [← Option.some.inj h]
      simp [hl]
    · next hl =>
      rw [← Option.some.inj h]
      simp [hl]
  · cases h

/-- A step of `app_wifi_main` leaves the handler alone, and changes the
group at its creation and its deletion. -/
theorem State.mainStep_cases {ok : Bool} (h : s.mainStep ok = some s') :
    s'.handler = s.handler ∧ s'.deadCall = s.deadCall
      ∧ s'.main ≠ .create
      ∧ ((s.main = .create ∧ s'.main ≠ .clear ∧ s'.group = s'.live)
        ∨ (s.main = .delete ∧ s'.main = .clear ∧ s'.live = none)
        ∨ (s.main = .clear ∧ s'.main ≠ .clear ∧ s'.group = none
          ∧ s'.live = s.live)
        ∨ (s.main ≠ .create ∧ s.main ≠ .clear ∧ s'.main ≠ .clear
          ∧ s'.group = s.group ∧ s'.live = s.live)) := by
  unfold State.mainStep at h
  cases hm : s.main with
  | wait =>
      rw [hm] at h
      dsimp only at h
      split at h
      · rw [← Option.some.inj h]
        simp
      · cases h
  | returned =>
      rw [hm] at h
      cases h
  | _ =>
      rw [hm] at h
      rw [← Option.some.inj h]
      simp [State.register]

theorem HandleTracked.step (h : HandleTracked s) {a : Action}
    (happ : s.apply a = some s') : HandleTracked s' := by
  cases a with
  | main ok =>
      obtain ⟨-, -, hnc, hcase⟩ := State.mainStep_cases happ
      obtain ⟨-, hncl, heq⟩ | ⟨-, hcl, hdead⟩ | ⟨hcl, hncl, hg, hl⟩
        | ⟨-, hncl, hncl', hg, hl⟩ := hcase
      · exact ⟨fun hc => absurd hc hnc, fun _ => heq, fun hc => absurd hc hncl⟩
      · exact ⟨fun hc => absurd hc hnc, fun hc => absurd hcl hc, fun _ => hdead⟩
      · refine ⟨fun hc => absurd hc hnc, fun _ => ?_, fun hc => absurd hc hncl⟩
        rw [hg, hl, h.dead hcl]
      · refine ⟨fun hc => absurd hc hnc, fun _ => ?_,
          fun hc => absurd hc hncl'⟩
        rw [hg, hl, h.agree hncl]
  | deliver e =>
      obtain ⟨-, hm, hg, hl, -, -⟩ := State.deliver_cases happ
      exact ⟨by rw [hm, hl]; exact h.before, by rw [hm, hg, hl]; exact h.agree,
        by rw [hm, hl]; exact h.dead⟩
  | setBits =>
      obtain ⟨group, -, hm, hg, hl, -, -⟩ := State.setBits_cases happ
      exact ⟨by rw [hm, hl]; exact h.before, by rw [hm, hg, hl]; exact h.agree,
        by rw [hm, hl]; exact h.dead⟩

/-- A guarded step keeps every call live. -/
theorem GroupLive.step {a : Action} (hI : HandleTracked s) (hP : GroupLive s)
    (hg : LiveDelivery s a) (happ : s.apply a = some s') : GroupLive s' := by
  cases a with
  | main ok =>
      obtain ⟨hh, hd, -, hcase⟩ := State.mainStep_cases happ
      refine ⟨by rw [hd]; exact hP.1, fun group hs => ?_⟩
      rw [hh] at hs
      obtain ⟨hsome, hlive⟩ := hP.2 group hs
      refine ⟨hsome, ?_⟩
      obtain ⟨hc, -, -⟩ | ⟨hdel, -, -⟩ | ⟨-, -, -, hl⟩ | ⟨-, -, -, -, hl⟩ := hcase
      · rw [hlive, hI.before hc] at hsome
        cases hsome
      · rw [hg hdel] at hs
        cases hs
      · rw [hl]
        exact hlive
      · rw [hl]
        exact hlive
  | deliver e =>
      obtain ⟨-, -, -, hl, hd, hh⟩ := State.deliver_cases happ
      refine ⟨by rw [hd]; exact hP.1, fun group hs => ?_⟩
      rw [hh] at hs
      split at hs
      · next he =>
        obtain ⟨hsome, hncl⟩ := hg he
        cases hs
        exact ⟨hsome, by rw [hl]; exact hI.agree hncl⟩
      · cases hs
  | setBits =>
      obtain ⟨group, hh, -, -, -, hidle, hd⟩ := State.setBits_cases happ
      obtain ⟨hsome, hlive⟩ := hP.2 group hh
      refine ⟨?_, fun group' hs => ?_⟩
      · rw [hd, hP.1, hsome, ← hlive]
        simp
      · rw [hidle] at hs
        cases hs

/-- An unguarded step leaves the handler with a dead handle. -/
theorem not_groupLive {a : Action} (hI : HandleTracked s)
    (hg : ¬ LiveDelivery s a) (happ : s.apply a = some s') :
    ¬ GroupLive s' := by
  intro hP
  cases a with
  | main ok =>
      simp only [LiveDelivery, Classical.not_imp] at hg
      obtain ⟨hdel, hbusy⟩ := hg
      obtain ⟨hh, -, -, hcase⟩ := State.mainStep_cases happ
      cases hs : s.handler with
      | idle => exact hbusy hs
      | setBits group =>
          obtain ⟨hsome, hlive⟩ := hP.2 group (by rw [hh, hs])
          rw [hdel] at hcase
          obtain ⟨hc, -⟩ | ⟨-, -, hdead⟩ | ⟨hc, -⟩ | ⟨-, -, hncl, hg', hl⟩ := hcase
          · cases hc
          · rw [hlive, hdead] at hsome
            cases hsome
          · cases hc
          · have : s'.main = .clear := by
              have happ : s.mainStep ok = some s' := happ
              unfold State.mainStep at happ
              rw [hdel] at happ
              rw [← Option.some.inj happ]
            exact hncl this
  | deliver e =>
      simp only [LiveDelivery, Classical.not_imp, not_and_or, not_not] at hg
      obtain ⟨he, hdead⟩ := hg
      obtain ⟨-, -, -, hl, -, hh⟩ := State.deliver_cases happ
      rw [if_pos he] at hh
      obtain ⟨hsome, hlive⟩ := hP.2 _ hh
      rcases hdead with hnone | hclear
      · exact hnone hsome
      · rw [hlive, hl, hI.dead hclear] at hsome
        cases hsome
  | setBits => exact hg trivial

/-- In every run, every `xEventGroupSetBits` call meets a live group if
and only if GOT_IP comes only while the group exists and the group is
not deleted under the handler. -/
theorem group_live_iff {acts : List Action}
    (hrun : wifi.run State.init acts = some s) :
    wifi.Throughout GroupLive State.init acts
      ↔ wifi.Obeys LiveDelivery State.init acts :=
  Machine.throughout_iff_obeys (M := wifi) handleTracked_init
    ⟨rfl, fun _ h => nomatch h⟩
    (fun _ _ _ hI hP hg happ => ⟨hI.step happ, hP.step hI hg happ⟩)
    (fun _ _ _ hI _ hg happ => not_groupLive hI hg happ) hrun

/-- A first boot: the station starts, gets its address, and
`app_wifi_main` returns. -/
def firstBoot : List Action :=
  List.replicate 5 (.main true)
    ++ [.deliver .staStart, .deliver .staGotIp, .setBits]
    ++ List.replicate 3 (.main true)

/-- The exact condition on a first boot. -/
theorem group_live_firstBoot :
    ∃ s, wifi.run State.init firstBoot = some s
      ∧ (wifi.Throughout GroupLive State.init firstBoot
        ↔ wifi.Obeys LiveDelivery State.init firstBoot) :=
  ⟨_, rfl, group_live_iff rfl⟩

/-- A reconnect after the first boot: the handler calls
`xEventGroupSetBits` with the cleared handle. -/
theorem reconnect_dead_call :
    (wifi.run State.init firstBoot).map (fun s => (s.main, s.deadCall))
      = some (.returned, false)
    ∧ (wifi.run State.init (firstBoot
        ++ [.deliver .staDisconnected, .deliver .staGotIp, .setBits])).map
        (fun s => (s.main, s.deadCall))
      = some (.returned, true) := by
  decide +kernel

end SitNChow.Wifi
