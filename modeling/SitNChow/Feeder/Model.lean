/-
The feeder as a system of tasks (main.c, manual_button.c): the schedule
task and the command task, which both enter `do_feed_workflow`, the
button task, the camera poll, and the app that writes commands to the
database.

# The semantics

One action is one step of one party, so an interleaving is a list of
actions and `feeder` is a `Kit.Machine`. What the outside world answers
(request outcomes, sensor readings, the button's level) comes with the
action. A step ends where another party can first see its effect: at a
pin write, a mutex operation, a flag write, a database request.

# The command path

`commands/<deviceId>/pending` is one register. A poll round reads it
(`get`), acknowledges by deleting it (`delete`; the outcome is ignored),
and then tries the feed mutex (`attempt`). Writes are numbered, and a
trigger carries the number of the write it was read from; the numbers
and the trace are ghost state that no step of the code reads.

# The camera flag

`camera_streaming_start` and `_stop` take their mutex, write
`s_camera_streaming` and give the mutex. A party that has entered such a
call is at `starting`, `stopping` or `call`; leaving it performs the
write.
-/
import SitNChow.CJson
import SitNChow.Motor
import SitNChow.Kit.Machine

namespace SitNChow

open Kit

-- ================================================ triggers and events

/-- The tasks that call `do_feed_workflow`. -/
inductive FeedTask where
  | schedule
  | command
deriving DecidableEq

/-- The arguments of one `do_feed_workflow` call; `write` is the number
of the app's write it was read from. -/
structure Trigger where
  write : Option Nat
  grams : Int
  source : CString
  force : Bool
deriving DecidableEq

/-- What the run leaves behind, newest first: database values removed by
a DELETE (with the number the round had read), triggers accepted and
ignored (with the holder of the mutex), and what workflows do. -/
inductive Event where
  | removed (read write : Nat) (v : CJson)
  | started (t : FeedTask) (tr : Trigger)
  | ignored (t : FeedTask) (tr : Trigger) (holder : FeedTask)
  | dispenserRun (t : FeedTask) (tr : Trigger)
  | dispensed (t : FeedTask) (tr : Trigger) (err : EspErr)
  | feedEvent (t : FeedTask) (tr : Trigger) (foodLow : Bool)
  | notification (t : FeedTask) (title body : String)
  | lowFoodFlag (t : FeedTask)
  | released (t : FeedTask)

/-- The configuration the feeder runs under. -/
structure Config where
  motor : MotorConfig
  lowFoodThresholdCm : Nat
  identityReady : Bool

/-- The defaults of Kconfig.projbuild, with the owner known. -/
def Config.default : Config :=
  { motor := .default, lowFoodThresholdCm := 20, identityReady := true }

/-- What a workflow step may be told by its sensors and by the sitting
detector. -/
structure Sensed where
  petDetected : Bool
  sitting : Bool
  distanceCm : Rat

-- ======================================================== the workflow

/-- Where a task is inside `do_feed_workflow`, past the guard. -/
inductive WfPc where
  | beep
  | tofWait
  | streamStart
  | starting
  | sitting
  | streamStop
  | stopping
  | run
  | dispense (d : DispenserPc)
  | ultrasonic
  | logEvent
  | notifyDone
  | notifyLow
  | lowFlag
  | release
deriving DecidableEq

/-- A workflow past the guard: its arguments, its locals, its place. -/
structure Wf where
  trig : Trigger
  sittingConfirmed : Bool
  foodLow : Bool
  pc : WfPc

/-- The state the tasks share. -/
structure World where
  feedMutex : Option FeedTask
  cameraStreaming : Bool
  motor : Motor
  trace : List Event

/-- Record an event. -/
def World.log (x : World) (e : Event) : World := { x with trace := e :: x.trace }

/-- `push_notification`: nothing without an owner. -/
def World.pushNotification (cfg : Config) (x : World) (t : FeedTask)
    (title body : String) : World :=
  if cfg.identityReady then x.log (.notification t title body) else x

/-- One step of `do_feed_workflow` past the guard; `none` is its
return. -/
def wfStep (cfg : Config) (t : FeedTask) (o : Sensed) (w : Wf) (x : World) :
    Option Wf × World :=
  match w.pc with
  | .beep =>
      (some { w with pc := if w.trig.force then .run else .tofWait }, x)
  | .tofWait =>
      -- no pet within the timeout aborts the feed
      (some { w with pc := if o.petDetected then .streamStart else .release }, x)
  | .streamStart => (some { w with pc := .starting }, x)
  | .starting => (some { w with pc := .sitting }, { x with cameraStreaming := true })
  | .sitting => (some { w with sittingConfirmed := o.sitting, pc := .streamStop }, x)
  | .streamStop => (some { w with pc := .stopping }, x)
  | .stopping => (some { w with pc := .run }, { x with cameraStreaming := false })
  | .run => (some { w with pc := .dispense .check }, x.log (.dispenserRun t w.trig))
  | .dispense (.done err) =>
      -- the result is not looked at
      (some { w with pc := .ultrasonic }, x.log (.dispensed t w.trig err))
  | .dispense d =>
      let r := dispenserStep cfg.motor w.trig.grams d x.motor
      (some { w with pc := .dispense r.1 }, { x with motor := r.2 })
  | .ultrasonic =>
      let foodLow := if o.distanceCm < 0 then false
        else decide ((cfg.lowFoodThresholdCm : Rat) < o.distanceCm)
      (some { w with foodLow := foodLow, pc := .logEvent }, x)
  | .logEvent =>
      (some { w with pc := .notifyDone }, x.log (.feedEvent t w.trig w.foodLow))
  | .notifyDone =>
      (some { w with pc := if w.foodLow then .notifyLow else .release },
        x.pushNotification cfg t "🐾 Feeding complete"
          (if w.sittingConfirmed
            then "Your pet was detected sitting and has been fed!"
            else "Your pet was fed (sitting not confirmed)."))
  | .notifyLow =>
      (some { w with pc := .lowFlag },
        x.pushNotification cfg t "⚠️ Low food level"
          "Your feeder is running low — time to refill!")
  | .lowFlag => (some { w with pc := .release }, x.log (.lowFoodFlag t))
  | .release => (none, { x with feedMutex := none }.log (.released t))

-- =========================================================== the button

/-- Where the button task is in its loop. `hold` is the loop's test,
`finish` the `dispenser_run` that completes the revolution. -/
inductive ButtonPc where
  | idle
  | debounce
  | dir
  | enable
  | hold
  | stepHigh
  | stepLow
  | disable
  | finish (d : DispenserPc)
  | released
deriving DecidableEq

/-- One step of `button_task`; `pressed` is the button's level where the
step reads it. -/
def buttonStep (cfg : Config) (pressed : Bool) :
    ButtonPc → Motor → ButtonPc × Motor
  | .idle, m => (if pressed then .debounce else .idle, m)
  | .debounce, m => (if pressed then .dir else .idle, m)
  | .dir, m => (.enable, { m with dir := true })
  | .enable, m => (.hold, { m with en := false })
  | .hold, m => (if pressed then .stepHigh else .disable, m)
  | .stepHigh, m => (.stepLow, { m with step := true })
  | .stepLow, m => (.hold, { m with step := false })
  | .disable, m => (.finish .check, { m with en := true })
  | .finish (.done _), m => (.released, m)
  | .finish d, m =>
      let r := dispenserStep cfg.motor cfg.motor.finishGrams d m
      (.finish r.1, r.2)
  | .released, m => (if pressed then .released else .idle, m)

-- ============================================================ commands

/-- The arguments of a feed: grams and the force flag. -/
structure Command where
  grams : Int
  force : Bool
deriving DecidableEq

/-- What `handle_pending_command` reads from the value: nothing unless
its action is the string "dispense". -/
def pendingCommand (cmd : CJson) : Option Command :=
  match cmd.getObjectItem (cstr "action") with
  | some (.string valuestring) =>
      if valuestring = cstr "dispense" then
        some { grams :=
                 match cmd.getObjectItem (cstr "grams") with
                 | some (.number valuedouble) => CJson.toInt valuedouble
                 | _ => 25
               force :=
                 match cmd.getObjectItem (cstr "force") with
                 | some force_j => force_j.isTrue
                 | none => false }
      else none
  | _ => none

/-- The `do_feed_workflow` call made for a command read from write
number `id`. -/
def Command.trigger (id : Nat) (c : Command) : Trigger where
  write := some id
  grams := c.grams
  source := if c.force then cstr "Quick Feed" else cstr "Scheduled Feed"
  force := c.force

-- ============================================================ the system

/-- Where a feed task is: outside `do_feed_workflow`, about to
acknowledge a command it has read, at the guard, or past it. -/
inductive TaskPc where
  | idle
  | ack (id : Nat) (c : Command)
  | attempt (tr : Trigger)
  | feeding (w : Wf)

/-- `camera_poll_task`: `last_state`, the start (`true`) or stop call it
is in, and the last `cameraActive` it polled successfully (`false`
before the first; ghost state). -/
structure CameraPoll where
  lastState : Bool
  call : Option Bool
  polled : Bool
deriving DecidableEq

/-- The feeder: what the tasks share, where each one is, the pending
register with the number of the write it holds, and the number of writes
so far. -/
structure State where
  world : World
  task : FeedTask → TaskPc
  pending : Option (Nat × CJson)
  writes : Nat
  button : ButtonPc
  camera : CameraPoll

/-- After boot: every task at the top of its loop. -/
def State.init : State where
  world := { feedMutex := none, cameraStreaming := false,
             motor := Motor.init, trace := [] }
  task := fun _ => .idle
  pending := none
  writes := 0
  button := .idle
  camera := { lastState := false, call := none, polled := false }

/-- Move one feed task. -/
def State.setTask (s : State) (t : FeedTask) (pc : TaskPc) : State :=
  { s with task := fun u => if u = t then pc else s.task u }

/-- The app writes a value to the register. -/
def State.appWrite (v : CJson) (s : State) : State :=
  { s with pending := some (s.writes, v), writes := s.writes + 1 }

/-- `check_and_fire` calls back: the schedule task is at the guard. -/
def State.fire (grams : Int) (s : State) : Option State :=
  match s.task .schedule with
  | .idle => some (s.setTask .schedule (.attempt
      { write := none, grams := grams, source := cstr "schedule",
        force := false }))
  | _ => none

/-- A poll round's GET: on success, a command found is to be
acknowledged; anything else ends the round. -/
def State.get (ok : Bool) (s : State) : Option State :=
  match s.task .command with
  | .idle =>
      if ok then
        match s.pending with
        | some (id, v) =>
            match pendingCommand v with
            | some c => some (s.setTask .command (.ack id c))
            | none => some s
        | none => some s
      else some s
  | _ => none

/-- The register's value is gone; the round that removed it had read
write `read`. -/
def State.remove (read write : Nat) (v : CJson) (s : State) : State :=
  { s with pending := none, world := s.world.log (.removed read write v) }

/-- `firebase_delete`: when it takes effect, whatever the register holds
is gone. The round goes on either way. -/
def State.delete (ok : Bool) (s : State) : Option State :=
  match s.task .command with
  | .ack id c =>
      let s := s.setTask .command (.attempt (c.trigger id))
      match ok, s.pending with
      | true, some (write, v) => some (s.remove id write v)
      | _, _ => some s
  | _ => none

/-- The guard lets the workflow in. -/
def State.start (t : FeedTask) (tr : Trigger) (s : State) : State :=
  { s with world := { s.world with feedMutex := some t }.log (.started t tr) }
    |>.setTask t (.feeding
      { trig := tr, sittingConfirmed := false, foodLow := false, pc := .beep })

/-- The guard sends the trigger away. -/
def State.ignore (t : FeedTask) (tr : Trigger) (holder : FeedTask) (s : State) :
    State :=
  { s with world := s.world.log (.ignored t tr holder) }.setTask t .idle

/-- The guard of `do_feed_workflow`: `xSemaphoreTake(s_feed_mutex, 0)`. -/
def State.attempt (t : FeedTask) (s : State) : Option State :=
  match s.task t with
  | .attempt tr =>
      match s.world.feedMutex with
      | none => some (s.start t tr)
      | some holder => some (s.ignore t tr holder)
  | _ => none

/-- A step of the workflow a task is in. -/
def State.feed (cfg : Config) (t : FeedTask) (o : Sensed) (s : State) :
    Option State :=
  match s.task t with
  | .feeding w =>
      let r := wfStep cfg t o w s.world
      some ({ s with world := r.2 }.setTask t
        (match r.1 with
         | some w' => .feeding w'
         | none => .idle))
  | _ => none

/-- A step of the button task. -/
def State.press (cfg : Config) (pressed : Bool) (s : State) : State :=
  let r := buttonStep cfg pressed s.button s.world.motor
  { s with button := r.1, world := { s.world with motor := r.2 } }

/-- A round of the camera poll: `val` is the value read, `none` for a
failed request or an empty node. A changed value enters a start or stop
call. -/
def State.cameraPoll (val : Option CJson) (s : State) : Option State :=
  match s.camera.call, val with
  | some _, _ => none
  | none, none => some s
  | none, some v =>
      let active := v.isTrue
      some { s with camera :=
        { lastState := active, polled := active,
          call := if active ≠ s.camera.lastState then some active else none } }

/-- The camera poll finishes the start or stop call it is in. -/
def State.cameraCall (s : State) : Option State :=
  match s.camera.call with
  | some b => some { s with world := { s.world with cameraStreaming := b }
                            camera := { s.camera with call := none } }
  | none => none

/-- The steps of the feeder. -/
inductive Action where
  | appWrite (v : CJson)
  | fire (grams : Int)
  | get (ok : Bool)
  | delete (ok : Bool)
  | attempt (t : FeedTask)
  | feed (t : FeedTask) (o : Sensed)
  | press (pressed : Bool)
  | cameraPoll (val : Option CJson)
  | cameraCall

/-- The feeder's transition. -/
def State.apply (cfg : Config) : Action → State → Option State
  | .appWrite v, s => some (s.appWrite v)
  | .fire grams, s => s.fire grams
  | .get ok, s => s.get ok
  | .delete ok, s => s.delete ok
  | .attempt t, s => s.attempt t
  | .feed t o, s => s.feed cfg t o
  | .press pressed, s => some (s.press cfg pressed)
  | .cameraPoll val, s => s.cameraPoll val
  | .cameraCall, s => s.cameraCall

/-- The feeder as a machine. -/
def feeder (cfg : Config) : Machine State Action where
  init := State.init
  apply := State.apply cfg

end SitNChow
