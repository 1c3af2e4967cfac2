/-
The boot sequence (main.c, `app_main`) as far as the schedule runner
depends on it: the SNTP wait, the owner's identity, and the start of
`schedule_task`, on a clock that counts from the epoch until SNTP
answers.

# The clock

`sntp_sync_wait` gives up after 20 attempts and logs "Clock synced"
either way; nothing else looks at the clock before the runner is
started. SNTP goes on polling, so an answer may come at any time after
it was initialised, and `time(NULL)` jumps with it.

# Exactly when it is harmless

`unsynced_feed_iff` is the two-sided result for one run: no feed is
called on an unset clock if and only if no check made before the first
answer finds anything due at the time the uptime spells. A runner that is
started on a set clock is always harmless
(`noUnsyncedFeed_of_startsSynced`); `app_main` does not see to that.
-/
import SitNChow.Schedule.Task

namespace SitNChow

open Kit

-- ============================================================ the boot

/-- Where `app_main` is. `sntpWait` and `ownerUid` carry their `retry`
counters; `services` is everything between the owner's identity and the
schedule runner, `background` everything after it. -/
inductive BootPc where
  | wifi
  | sntpWait (retry : Nat)
  | firebaseInit
  | ownerUid (retry : Nat)
  | services
  | scheduleRunner
  | background
deriving DecidableEq

/-- The device from power-on: `app_main`, the offset of `time(NULL)` to
the uptime in seconds, whether SNTP has set it, and `schedule_task`,
whose time is the uptime and which runs once it is created. -/
structure Boot where
  pc : BootPc
  identityReady : Bool
  offsetS : Int
  synced : Bool
  created : Bool
  task : SchedTask

/-- `time(NULL)` at an uptime in milliseconds. -/
def Boot.time (s : Boot) (uptimeMs : Int) : Int := s.offsetS + uptimeMs / 1000

/-- Time passes. -/
def Boot.wait (ms : Nat) (s : Boot) : Boot :=
  { s with task := { s.task with now := s.task.now + ms } }

/-- The next step of `app_main`; `ok` is what `fetch_owner_uid`
returns. -/
def Boot.main (ok : Bool) (s : Boot) : Option Boot :=
  match s.pc with
  | .wifi => some { s with pc := .sntpWait 0 }
  | .sntpWait retry =>
      -- sntp_get_sync_status() == SNTP_SYNC_STATUS_RESET && ++retry < 20
      if s.synced = false ∧ retry + 1 < 20
      then some { s.wait 1000 with pc := .sntpWait (retry + 1) }
      else some { s with pc := .firebaseInit }
  | .firebaseInit => some { s with pc := .ownerUid 0 }
  | .ownerUid retry =>
      if retry < 5 then
        if ok then some { s with pc := .services, identityReady := true }
        else some { s.wait 3000 with pc := .ownerUid (retry + 1) }
      else some { s with pc := .services }
  | .services => some { s with pc := .scheduleRunner }
  | .scheduleRunner =>
      if s.identityReady then
        some { s with pc := .background, created := true
                      task := SchedTask.start s.task.now }
      else some { s with pc := .background }
  | .background => none

/-- The steps of the device: `app_main`, time passing in a step of it,
an answer from SNTP with the UTC time it sets, a step of
`schedule_task`. -/
inductive BootAction where
  | main (ok : Bool)
  | wait (ms : Nat)
  | sntp (utcS : Int)
  | task (a : SchedAction)

/-- The device's transition. -/
def Boot.apply (cfg : FeedTimeouts) (table : List LocalSchedule) :
    BootAction → Boot → Option Boot
  | .main ok, s => s.main ok
  | .wait ms, s => some (s.wait ms)
  | .sntp utcS, s =>
      if s.pc = .wifi then none
      else some { s with offsetS := utcS - s.task.now / 1000, synced := true }
  | .task a, s =>
      if s.created then
        (s.task.apply cfg s.time table a).map fun task => { s with task := task }
      else none

/-- The device from power-on, with a schedule table in the database. -/
def boot (cfg : FeedTimeouts) (table : List LocalSchedule) :
    Machine Boot BootAction where
  init := { pc := .wifi, identityReady := false, offsetS := 0, synced := false
            created := false, task := SchedTask.start 0 }
  apply := Boot.apply cfg table

-- ==================================================== feeds and the clock

/-- While SNTP has not set the clock, no feed has been called. -/
def NoUnsyncedFeed (s : Boot) : Prop := s.synced = false → s.task.calls = []

/-- A check made before SNTP has set the clock finds nothing due at the
time the uptime spells. -/
def NothingDueUnsynced (s : Boot) (a : BootAction) : Prop :=
  a = .task .check → s.synced = false →
    ¬ Due s.task.runner.schedules (localtime (s.time s.task.now))

section Boot

variable {cfg : FeedTimeouts} {table : List LocalSchedule} {s s' : Boot}
  {a : BootAction}

/-- Nothing is remembered before the first callback, and the callback is
registered. -/
structure Quiet (s : SchedTask) : Prop where
  onFeed : s.runner.onFeed = true
  memory : s.calls = [] → s.runner.memory = Runner.boot.memory

theorem quiet_start (now : Int) : Quiet (SchedTask.start now) :=
  ⟨rfl, fun _ => rfl⟩

/-- What a step of `app_main` does to the task: nothing but time, or its
creation. -/
theorem Boot.main_cases {ok : Bool} (h : s.main ok = some s') :
    s'.synced = s.synced
      ∧ ((∃ now, s'.task = { s.task with now := now })
        ∨ s'.task = SchedTask.start s.task.now) := by
  have hsame : s.task = { s.task with now := s.task.now } := rfl
  unfold Boot.main at h
  split at h
  · obtain rfl := Option.some.inj h
    exact ⟨rfl, .inl ⟨_, hsame⟩⟩
  · split at h
    · obtain rfl := Option.some.inj h
      exact ⟨rfl, .inl ⟨_, rfl⟩⟩
    · obtain rfl := Option.some.inj h
      exact ⟨rfl, .inl ⟨_, hsame⟩⟩
  · obtain rfl := Option.some.inj h
    exact ⟨rfl, .inl ⟨_, hsame⟩⟩
  · split at h
    · split at h
      · obtain rfl := Option.some.inj h
        exact ⟨rfl, .inl ⟨_, hsame⟩⟩
      · obtain rfl := Option.some.inj h
        exact ⟨rfl, .inl ⟨_, rfl⟩⟩
    · obtain rfl := Option.some.inj h
      exact ⟨rfl, .inl ⟨_, hsame⟩⟩
  · obtain rfl := Option.some.inj h
    exact ⟨rfl, .inl ⟨_, hsame⟩⟩
  · split at h
    · obtain rfl := Option.some.inj h
      exact ⟨rfl, .inr rfl⟩
    · obtain rfl := Option.some.inj h
      exact ⟨rfl, .inl ⟨_, hsame⟩⟩
  · cases h

/-- A step of the task adds a callback at a due check only. -/
theorem Quiet.step {clock : Int → Int} {t t' : SchedTask} {b : SchedAction}
    (h : Quiet t) (happ : t.apply cfg clock table b = some t') :
    Quiet t' ∧ (t'.calls = t.calls
      ∨ b = .check ∧ Due t.runner.schedules (localtime (clock t.now))) := by
  rcases SchedTask.apply_cases happ with
    ⟨ms, ok, pc, rfl, rfl⟩ | ⟨rfl, ⟨r, c, hc, rfl⟩ | ⟨r, hc, rfl⟩⟩
      | ⟨-, -, hrunner, -, -, hcalls⟩
  · cases ok with
    | false => exact ⟨⟨h.onFeed, h.memory⟩, .inl rfl⟩
    | true => exact ⟨⟨h.onFeed, h.memory⟩, .inl rfl⟩
  · have hon := (checkAndFire_keeps (localtime (clock t.now)) t.runner).1
    rw [hc] at hon
    refine ⟨⟨hon.trans h.onFeed, fun hnil => by cases hnil⟩, .inr ⟨rfl, ?_⟩⟩
    by_contra hdue
    rw [checkAndFire_idle hdue] at hc
    cases hc
  · have hon := (checkAndFire_keeps (localtime (clock t.now)) t.runner).1
    have hmem := checkAndFire_memory (localtime (clock t.now)) h.onFeed
    rw [hc] at hon hmem
    exact ⟨⟨hon.trans h.onFeed, fun hnil =>
      (show r.memory = t.runner.memory from hmem).trans (h.memory hnil)⟩,
      .inl rfl⟩
  · refine ⟨⟨by rw [hrunner]; exact h.onFeed, fun hnil => ?_⟩, .inl hcalls⟩
    rw [hrunner]
    exact h.memory (hcalls ▸ hnil)

/-- The first due check of a task makes a callback. -/
theorem Quiet.check_due {clock : Int → Int} {t t' : SchedTask}
    (h : Quiet t) (hnil : t.calls = [])
    (hdue : Due t.runner.schedules (localtime (clock t.now)))
    (happ : t.apply cfg clock table .check = some t') : t'.calls ≠ [] := by
  rcases SchedTask.apply_cases happ with
    ⟨ms, ok, pc, ha, -⟩ | ⟨-, ⟨r, c, -, rfl⟩ | ⟨r, hc, -⟩⟩ | ⟨ha, -⟩
  · cases ha
  · exact List.cons_ne_nil _ _
  · -- nothing is remembered yet
    have hmem : t.runner.memory ≠ (localtime (clock t.now)).key := by
      intro hk
      rw [h.memory hnil] at hk
      exact boot_memory_ne _ (congrArg some hk)
    obtain ⟨i, e, -, hfire⟩ := checkAndFire_fresh hdue hmem h.onFeed
    rw [hc] at hfire
    cases hfire
  · exact absurd rfl ha

/-- A step that meets the guard keeps the clock's promise. -/
theorem NoUnsyncedFeed.step (h : NoUnsyncedFeed s) (hq : Quiet s.task)
    (hg : NothingDueUnsynced s a) (happ : s.apply cfg table a = some s') :
    Quiet s'.task ∧ NoUnsyncedFeed s' := by
  cases a with
  | main ok =>
      obtain ⟨hsynced, ⟨now, htask⟩ | htask⟩ := Boot.main_cases happ
      · rw [NoUnsyncedFeed, hsynced, htask]
        exact ⟨⟨hq.onFeed, hq.memory⟩, h⟩
      · rw [NoUnsyncedFeed, htask]
        exact ⟨quiet_start _, fun _ => rfl⟩
  | wait ms =>
      obtain rfl := Option.some.inj happ
      exact ⟨⟨hq.onFeed, hq.memory⟩, h⟩
  | sntp utcS =>
      simp only [Boot.apply] at happ
      split at happ
      · cases happ
      · obtain rfl := Option.some.inj happ
        exact ⟨hq, fun hs => by cases hs⟩
  | task b =>
      simp only [Boot.apply] at happ
      split at happ
      · obtain ⟨t, ht, rfl⟩ := Option.map_eq_some_iff.mp happ
        obtain ⟨hq', hcalls⟩ := hq.step ht
        refine ⟨hq', fun hs => ?_⟩
        rcases hcalls with hcalls | ⟨rfl, hdue⟩
        · exact hcalls.trans (h hs)
        · exact absurd hdue (hg rfl hs)
      · cases happ

/-- A step that breaks the guard feeds on an unset clock at once. -/
theorem NoUnsyncedFeed.broken (h : NoUnsyncedFeed s) (hq : Quiet s.task)
    (hg : ¬ NothingDueUnsynced s a) (happ : s.apply cfg table a = some s') :
    ¬ NoUnsyncedFeed s' := by
  simp only [NothingDueUnsynced, Classical.not_imp, not_not] at hg
  obtain ⟨rfl, hs, hdue⟩ := hg
  simp only [Boot.apply] at happ
  split at happ
  · obtain ⟨t, ht, rfl⟩ := Option.map_eq_some_iff.mp happ
    exact fun h' => hq.check_due (h hs) hdue ht (h' hs)
  · cases happ

/-- A run feeds on no unset clock, in any state it visits, if and only if
none of its checks finds anything due before SNTP has answered. -/
theorem unsynced_feed_iff {acts : List BootAction}
    (hrun : (boot cfg table).run (boot cfg table).init acts = some s) :
    (boot cfg table).Throughout NoUnsyncedFeed (boot cfg table).init acts
      ↔ (boot cfg table).Obeys NothingDueUnsynced (boot cfg table).init acts :=
  Machine.throughout_iff_obeys (I := fun s => Quiet s.task) (quiet_start 0)
    (fun _ => rfl) (fun _ _ _ hq h hg happ => h.step hq hg happ)
    (fun _ _ _ hq h hg happ => h.broken hq hg happ) hrun

/-- The runner is started after SNTP has answered. -/
def StartsSynced (s : Boot) (a : BootAction) : Prop :=
  (∃ ok, a = .main ok) → s.pc = .scheduleRunner → s.synced = true

/-- `schedule_task` is created at its place in `app_main` only. -/
theorem Boot.main_created {ok : Bool} (h : s.main ok = some s')
    (hc : s'.created = true) : s.created = true ∨ s.pc = .scheduleRunner := by
  cases hpc : s.pc with
  | scheduleRunner => exact .inr rfl
  | wifi | sntpWait | firebaseInit | ownerUid | services | background =>
      refine .inl ?_
      simp only [Boot.main, hpc] at h
      grind [Boot.wait]

/-- A run that starts the runner on a set clock only never feeds on an
unset one. -/
theorem noUnsyncedFeed_of_startsSynced
    (hr : (boot cfg table).ReachableBy StartsSynced s) : NoUnsyncedFeed s := by
  refine (hr.invariant (I := fun s => (s.created = true → s.synced = true)
    ∧ Quiet s.task ∧ NoUnsyncedFeed s)
    ⟨Bool.noConfusion, quiet_start 0, fun _ => rfl⟩ ?_).2.2
  rintro s a s' ⟨hclock, hq, h⟩ hg happ
  have happ : s.apply cfg table a = some s' := happ
  refine ⟨fun hc => ?_, h.step hq (fun ha hs => ?_) happ⟩
  · cases a with
    | main ok =>
        rw [(Boot.main_cases happ).1]
        rcases Boot.main_created happ hc with hc | hpc
        · exact hclock hc
        · exact hg ⟨ok, rfl⟩ hpc
    | wait ms =>
        obtain rfl := Option.some.inj happ
        exact hclock hc
    | sntp utcS =>
        simp only [Boot.apply] at happ
        split at happ
        · cases happ
        · obtain rfl := Option.some.inj happ
          rfl
    | task b =>
        simp only [Boot.apply] at happ
        split at happ
        · next hcreated =>
          obtain ⟨t, -, rfl⟩ := Option.map_eq_some_iff.mp happ
          exact hclock hcreated
        · cases happ
  · -- a check is made by a task that was created
    subst ha
    simp only [Boot.apply] at happ
    split at happ
    · next hcreated =>
      rw [hclock hcreated] at hs
      cases hs
    · cases happ

end Boot

/-- A boot whose SNTP wait runs out, with an owner, up to the first check
of the schedule task at the 61st second. -/
def unsyncedBoot : List BootAction :=
  [.main true] ++ List.replicate 20 (.main true)
    ++ [.main true, .main true, .wait 31000, .main true, .main true,
      .task (.fetch 1000 true), .task .delay, .task .refresh, .task .check]

/-- Wednesday 19:01. -/
def eveningTable : List LocalSchedule :=
  [{ id := cstr "a", timeHhmm := cstr "19:01", days := (·.val == 2),
     grams := 60, enabled := true, assigned := true }]

theorem unsyncedBoot_end :
    ((boot .default eveningTable).run (boot .default eveningTable).init
        unsyncedBoot).map
        (fun s => (s.synced, s.task.now, s.task.calls.map (·.2.grams)))
      = some (false, 61000, [60]) := by
  decide +kernel

/-- The rule on that boot. -/
theorem unsynced_feed_iff_evening :
    (boot .default eveningTable).Throughout NoUnsyncedFeed
        (boot .default eveningTable).init unsyncedBoot
      ↔ (boot .default eveningTable).Obeys NothingDueUnsynced
          (boot .default eveningTable).init unsyncedBoot := by
  obtain ⟨s, hs, -⟩ := Option.map_eq_some_iff.mp unsyncedBoot_end
  exact unsynced_feed_iff hs

/-- With the clock never set, 61 seconds of uptime spell 19:01 on the eve
of the epoch, and the entry of that minute is fed. -/
theorem unsynced_fed :
    ∃ s, (boot .default eveningTable).run (boot .default eveningTable).init
        unsyncedBoot = some s
      ∧ s.synced = false ∧ s.task.calls.map (·.2.grams) = [60]
      ∧ ¬ NoUnsyncedFeed s := by
  obtain ⟨s, hs, hproj⟩ := Option.map_eq_some_iff.mp unsyncedBoot_end
  simp only [Prod.mk.injEq] at hproj
  obtain ⟨hsynced, -, hcalls⟩ := hproj
  refine ⟨s, hs, hsynced, hcalls, fun h => ?_⟩
  rw [h hsynced] at hcalls
  cases hcalls

end SitNChow
