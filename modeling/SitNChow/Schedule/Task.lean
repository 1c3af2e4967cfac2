/-
The loop of `schedule_task` (schedule_runner.c) against the clock: how
long the fetches and the feed of a round keep it from its next check,
and which due minutes pass without one.

# Time

Times are milliseconds, of UTC in the results below. A round waits
`CHECK_INTERVAL_MS`, fetches the schedules when that is due, and checks;
a callback runs inside the check (`do_feed_workflow` is called
synchronously), so the next wait starts after it. The durations come with
the actions, up to the timeouts of the client and of the configuration;
the userSchedules snapshot stays one table.

# Swallowed minutes

The header of schedule_runner.c wakes the runner every 30 seconds, which
samples every minute. The loop has no catch-up for one it did not
sample, and a feed takes minutes. `minutes_fed_of_keepsUp` says what
keeps every due minute fed: no due minute passes between two checks, and
no check finds its pair remembered from an earlier minute, which within
a day happens in the repeated hour of the autumn change only
(`remembered_in_fold`).
-/
import SitNChow.Schedule.Runner
import SitNChow.Kit.Machine

namespace SitNChow

open Kit

-- ============================================================ the task

/-- The feed timeouts of the configuration, in seconds. -/
structure FeedTimeouts where
  petApproachTimeoutS : Nat
  sittingDetectTimeoutS : Nat

/-- The defaults of Kconfig.projbuild. -/
def FeedTimeouts.default : FeedTimeouts :=
  { petApproachTimeoutS := 60, sittingDetectTimeoutS := 180 }

/-- `REFRESH_INTERVAL_S`. -/
def refreshIntervalS : Nat := 60

/-- `CHECK_INTERVAL_MS`. -/
def checkIntervalMs : Nat := 10000

/-- The client's `timeout_ms`. -/
def fetchTimeoutMs : Nat := 15000

/-- Where `schedule_task` is: in its first fetch, in `vTaskDelay`, at
the refresh test, in a fetch of the loop, at the check, in the callback
the check has made. -/
inductive SchedPc where
  | init
  | delay
  | refresh
  | fetch
  | check
  | feed
deriving DecidableEq

/-- The task, its module state and the time. Ghost state: when the table
was first loaded, when the last check was made, and the callbacks with
their times, newest first. -/
structure SchedTask where
  now : Int
  pc : SchedPc
  runner : Runner
  lastRefresh : Int
  refreshRequested : Bool
  loaded : Option Int
  checked : Option Int
  calls : List (Int × FeedCall)

/-- One step of the loop, with the time it takes; `requestRefresh` is
`schedule_runner_refresh`, which any task may call. The parts of a feed
are the presence wait, the sitting wait and everything else. -/
inductive SchedAction where
  | fetch (ms : Nat) (ok : Bool)
  | delay
  | refresh
  | check
  | feed (presence sitting rest : Nat)
  | requestRefresh

/-- The time a step takes. -/
def SchedAction.ms : SchedAction → Nat
  | .fetch ms _ => ms
  | .delay => checkIntervalMs
  | .feed presence sitting rest => presence + sitting + rest
  | .refresh | .check | .requestRefresh => 0

/-- `fetch_schedules` and the tick count taken after it. -/
def SchedTask.fetch (table : List LocalSchedule) (ms : Nat) (ok : Bool)
    (pc : SchedPc) (s : SchedTask) : SchedTask :=
  let t := s.now + ms
  if ok then
    { s with now := t, lastRefresh := t, pc := pc
             runner := { s.runner with schedules := table }
             loaded := s.loaded <|> some t }
  else { s with now := t, lastRefresh := t, pc := pc }

/-- `schedule_task` at its first line, with nothing remembered and no
table loaded. -/
def SchedTask.start (now : Int) : SchedTask where
  now := now
  pc := .init
  runner := Runner.boot
  lastRefresh := 0
  refreshRequested := false
  loaded := none
  checked := none
  calls := []

/-- The transition of `schedule_task`; `clock` is `time(NULL)` at each
of its times. -/
def SchedTask.apply (cfg : FeedTimeouts) (clock : Int → Int)
    (table : List LocalSchedule) (a : SchedAction) (s : SchedTask) :
    Option SchedTask :=
  match s.pc, a with
  | .init, .fetch ms ok =>
      if ms ≤ fetchTimeoutMs then some (s.fetch table ms ok .delay) else none
  | .delay, .delay =>
      some { s with now := s.now + checkIntervalMs, pc := .refresh }
  | .refresh, .refresh =>
      if refreshIntervalS * 1000 ≤ s.now - s.lastRefresh
          ∨ s.refreshRequested = true
      then some { s with refreshRequested := false, pc := .fetch }
      else some { s with pc := .check }
  | .fetch, .fetch ms ok =>
      if ms ≤ fetchTimeoutMs then some (s.fetch table ms ok .check) else none
  | .check, .check =>
      match checkAndFire (localtime (clock s.now)) s.runner with
      | (r, some c) =>
          some { s with runner := r, checked := some s.now, pc := .feed
                        calls := (s.now, c) :: s.calls }
      | (r, none) =>
          some { s with runner := r, checked := some s.now, pc := .delay }
  | .feed, .feed presence sitting rest =>
      if presence ≤ cfg.petApproachTimeoutS * 1000
          ∧ sitting ≤ cfg.sittingDetectTimeoutS * 1000
      then some { s with now := s.now + (presence + sitting + rest : Nat)
                         pc := .delay }
      else none
  | _, .requestRefresh => some { s with refreshRequested := true }
  | _, _ => none

/-- `schedule_task` started at `start`, on a clock that tells UTC. -/
def schedTask (cfg : FeedTimeouts) (table : List LocalSchedule)
    (start : Int) : Machine SchedTask SchedAction where
  init := SchedTask.start start
  apply := SchedTask.apply cfg (· / 1000) table

-- =========================================================== minutes

/-- The table holds an entry for the minute that starts at second
`60 * u`. -/
def DueMinute (table : List LocalSchedule) (u : Int) : Prop :=
  Due table (localtime (60 * u))

instance (table : List LocalSchedule) (u : Int) :
    Decidable (DueMinute table u) :=
  inferInstanceAs (Decidable (Due ..))

/-- Minute `u` began after the table was loaded. A minute that begins in
the very millisecond of the load is not counted: a check made earlier in
that millisecond has sampled it with the table still empty. -/
def SchedTask.Loaded (s : SchedTask) (u : Int) : Prop :=
  ∃ l, s.loaded = some l ∧ l < 60000 * u

/-- A callback has been made for minute `u`'s pair, at that minute or
later. -/
def SchedTask.Fed (s : SchedTask) (u : Int) : Prop :=
  ∃ e ∈ s.calls, 60000 * u ≤ e.1
    ∧ (localtime (e.1 / 1000)).key = (localtime (60 * u)).key

/-- Every due minute that has passed completely has had its callback. -/
def MinutesFed (table : List LocalSchedule) (s : SchedTask) : Prop :=
  ∀ u, DueMinute table u → s.Loaded u → 60000 * (u + 1) ≤ s.now → s.Fed u

/-- The condition on a step: it does not take the loop past a due minute
that no check has sampled, and a check does not find its pair remembered
from before the current minute. -/
structure KeepsUp (table : List LocalSchedule) (s : SchedTask)
    (a : SchedAction) : Prop where
  sampled : ∀ u, DueMinute table u → s.Loaded u →
    (∀ c, s.checked = some c → c < 60000 * u) →
    s.now + a.ms < 60000 * (u + 1)
  fresh : a = .check → Due table (localtime (s.now / 1000)) →
    s.runner.memory = (localtime (s.now / 1000)).key →
    ∃ e ∈ s.calls, 60000 * (s.now / 60000) ≤ e.1

/-- A check leaves the table and the registration alone. -/
theorem checkAndFire_keeps (tm : Tm) (r : Runner) :
    (checkAndFire tm r).1.onFeed = r.onFeed
      ∧ (checkAndFire tm r).1.schedules = r.schedules := by
  unfold checkAndFire
  dsimp only
  split
  · exact ⟨rfl, rfl⟩
  · split <;> exact ⟨rfl, rfl⟩

/-- A check remembers its pair when it makes a callback. -/
theorem checkAndFire_memory (tm : Tm) {r : Runner} (hon : r.onFeed = true) :
    (checkAndFire tm r).1.memory
      = if (checkAndFire tm r).2.isSome then tm.key else r.memory := by
  by_cases hdue : Due r.schedules tm
  · by_cases hmem : r.memory = tm.key
    · rw [checkAndFire_repeat hmem]
      rfl
    · obtain ⟨i, e, -, hc⟩ := checkAndFire_fresh hdue hmem hon
      rw [hc]
      rfl
  · rw [checkAndFire_idle hdue]
    rfl

/-- Two instants at most a day apart that show one pair show one
minute of one date. -/
theorem date_of_key {a b : Int} (hab : a ≤ b) (hday : b ≤ a + 86400)
    (hkey : (localtime a).key = (localtime b).key) :
    (localtime a).date = (localtime b).date := by
  have hweek := (Tm.ofMinute_week_iff _ _).mp (Tm.key_eq_iff.mp hkey)
  show (a - if isDst a then 14400 else 18000) / 60 / 1440
    = (b - if isDst b then 14400 else 18000) / 60 / 1440
  revert hweek
  split <;> split <;> omega

/-- The second before a minute shows another minute. -/
theorem localtime_before (b : Int) :
    ¬ ((localtime (60 * (b / 60) - 1)).hour = (localtime b).hour
      ∧ (localtime (60 * (b / 60) - 1)).min = (localtime b).min) := by
  rintro ⟨hhour, hmin⟩
  simp only [localtime, Tm.ofLocal, Tm.ofMinute, Fin.mk.injEq] at hhour hmin
  revert hhour hmin
  split <;> split <;> omega

/-- The instants of one minute show one local time. -/
theorem localtime_minute (utc : Int) :
    localtime (60 * (utc / 60)) = localtime utc := by
  have hday : 60 * (utc / 60) / 86400 = utc / 86400 := by omega
  have hdst : isDst (60 * (utc / 60)) = isDst utc := by
    simp only [isDst, hday, springChange, autumnChange]
    refine decide_eq_decide.mpr ?_
    omega
  simp only [localtime, hdst, Tm.ofLocal]
  congr 1
  split <;> omega

section Task

variable {cfg : FeedTimeouts} {clock : Int → Int} {table : List LocalSchedule}
  {start : Int} {s s' : SchedTask} {a : SchedAction}

/-- What a step can do: fetch, check, or let time pass. -/
theorem SchedTask.apply_cases (h : s.apply cfg clock table a = some s') :
    (∃ ms ok pc, a = .fetch ms ok ∧ s' = s.fetch table ms ok pc)
      ∨ (a = .check
        ∧ ((∃ r c, checkAndFire (localtime (clock s.now)) s.runner
              = (r, some c)
            ∧ s' = { s with runner := r, checked := some s.now, pc := .feed
                            calls := (s.now, c) :: s.calls })
          ∨ ∃ r, checkAndFire (localtime (clock s.now)) s.runner = (r, none)
            ∧ s' = { s with runner := r, checked := some s.now
                            pc := .delay }))
      ∨ (a ≠ .check ∧ s'.now = s.now + a.ms ∧ s'.runner = s.runner
        ∧ s'.loaded = s.loaded ∧ s'.checked = s.checked
        ∧ s'.calls = s.calls) := by
  have hkeep : s'.now = s.now → s'.now = s.now + (0 : Nat) := by omega
  unfold SchedTask.apply at h
  split at h
  · -- the first fetch
    next ms ok _ =>
    split at h
    · exact .inl ⟨ms, ok, .delay, rfl, (Option.some.inj h).symm⟩
    · cases h
  · obtain rfl := Option.some.inj h
    exact .inr (.inr ⟨by simp, rfl, rfl, rfl, rfl, rfl⟩)
  · refine .inr (.inr ?_)
    split at h
    · obtain rfl := Option.some.inj h
      exact ⟨by simp, hkeep rfl, rfl, rfl, rfl, rfl⟩
    · obtain rfl := Option.some.inj h
      exact ⟨by simp, hkeep rfl, rfl, rfl, rfl, rfl⟩
  · next ms ok _ =>
    split at h
    · exact .inl ⟨ms, ok, .check, rfl, (Option.some.inj h).symm⟩
    · cases h
  · -- the check
    refine .inr (.inl ⟨rfl, ?_⟩)
    split at h
    · next r c hc => exact .inl ⟨r, c, hc, (Option.some.inj h).symm⟩
    · next r hc => exact .inr ⟨r, hc, (Option.some.inj h).symm⟩
  · refine .inr (.inr ?_)
    split at h
    · obtain rfl := Option.some.inj h
      exact ⟨by simp, rfl, rfl, rfl, rfl, rfl⟩
    · cases h
  · obtain rfl := Option.some.inj h
    exact .inr (.inr ⟨by simp, hkeep rfl, rfl, rfl, rfl, rfl⟩)
  · cases h

/-- The invariant of runs that keep up: times lie in the past, the table
is the one loaded, and every due minute that a check has reached has had
its callback. -/
structure Caught (table : List LocalSchedule) (s : SchedTask) : Prop where
  onFeed : s.runner.onFeed = true
  live : ∀ l, s.loaded = some l → s.runner.schedules = table
  calls_le : ∀ e ∈ s.calls, e.1 ≤ s.now
  checked_le : ∀ c, s.checked = some c → c ≤ s.now
  fed : MinutesFed table s
  reached : ∀ u, DueMinute table u → s.Loaded u →
    (∃ c, s.checked = some c ∧ 60000 * u ≤ c) → s.Fed u

theorem caught_init : Caught table (schedTask cfg table start).init where
  onFeed := rfl
  live := fun _ h => nomatch h
  calls_le := fun _ h => nomatch h
  checked_le := fun _ h => nomatch h
  fed := fun _ _ h _ => nomatch h
  reached := fun _ _ h _ => nomatch h

/-- Time that passes no unsampled due minute. -/
theorem Caught.pass (h : Caught table s) (hg : KeepsUp table s a)
    (hnow : s'.now = s.now + a.ms) (hrunner : s'.runner = s.runner)
    (hloaded : s'.loaded = s.loaded) (hchecked : s'.checked = s.checked)
    (hcalls : s'.calls = s.calls) : Caught table s' := by
  have hload : ∀ {u}, s'.Loaded u → s.Loaded u := fun ⟨l, hl, hle⟩ =>
    ⟨l, hloaded ▸ hl, hle⟩
  have hfed : ∀ {u}, s.Fed u → s'.Fed u := by
    rintro u ⟨e, he, hrest⟩
    exact ⟨e, by rw [hcalls]; exact he, hrest⟩
  refine ⟨by rw [hrunner]; exact h.onFeed, fun l hl => ?_, fun e he => ?_,
    fun c hc => ?_, fun u hdue hl hpast => ?_,
    fun u hdue hl ⟨c, hc, hle⟩ => ?_⟩
  · rw [hrunner]
    exact h.live l (hloaded ▸ hl)
  · have := h.calls_le e (hcalls ▸ he)
    omega
  · have := h.checked_le c (hchecked ▸ hc)
    omega
  · by_cases hsampled : ∃ c, s.checked = some c ∧ 60000 * u ≤ c
    · exact hfed (h.reached u hdue (hload hl) hsampled)
    · -- the guard keeps the loop inside an unsampled minute
      have hlt := hg.sampled u hdue (hload hl) fun c hc => by
        by_contra hle
        exact hsampled ⟨c, hc, by omega⟩
      omega
  · exact hfed (h.reached u hdue (hload hl) ⟨c, hchecked ▸ hc, hle⟩)

/-- Loading the table begins no minute that has already passed. -/
theorem Caught.fetch (h : Caught table s) {ms : Nat} {ok : Bool} {pc : SchedPc}
    (hg : KeepsUp table s (.fetch ms ok)) :
    Caught table (s.fetch table ms ok pc) := by
  cases ok with
  | false => exact h.pass hg rfl rfl rfl rfl rfl
  | true =>
      cases hl : s.loaded with
      | some l =>
          have hsame : s.runner = { s.runner with schedules := table } := by
            rw [← h.live l hl]
          exact h.pass hg rfl hsame.symm (by simp [SchedTask.fetch, hl]) rfl rfl
      | none =>
          have hload : ∀ {u}, (s.fetch table ms true pc).Loaded u →
              s.now + ms < 60000 * u := by
            rintro u ⟨l, hl', hle⟩
            simp only [SchedTask.fetch, hl] at hl'
            cases hl'
            exact hle
          refine ⟨h.onFeed, fun _ _ => rfl, fun e he => ?_,
            fun c hc => ?_, fun u _ hu hpast => ?_,
            fun u _ hu ⟨c, hc, hle⟩ => ?_⟩
          · have := h.calls_le e he
            show e.1 ≤ s.now + ms
            omega
          · have := h.checked_le c hc
            show c ≤ s.now + ms
            omega
          · have := hload hu
            have hpast : 60000 * (u + 1) ≤ s.now + ms := hpast
            omega
          · have := hload hu
            have := h.checked_le c hc
            omega

/-- A check samples the minute it is made in: if that is due, it has its
callback. -/
theorem Caught.check (h : Caught table s) (hg : KeepsUp table s .check)
    {calls : List (Int × FeedCall)} (hcalls : ∀ e ∈ s.calls, e ∈ calls)
    (hle : ∀ e ∈ calls, e.1 ≤ s.now)
    (hnew : Due s.runner.schedules (localtime (s.now / 1000)) →
      s.runner.memory ≠ (localtime (s.now / 1000)).key →
      ∃ e ∈ calls, e.1 = s.now)
    {r : Runner} {pc : SchedPc} (hon : r.onFeed = true)
    (hr : r.schedules = s.runner.schedules) :
    Caught table { s with runner := r, checked := some s.now, pc := pc
                          calls := calls } := by
  have hfed : ∀ {u}, s.Fed u → SchedTask.Fed { s with
      runner := r, checked := some s.now, pc := pc, calls := calls } u := by
    rintro u ⟨e, he, hrest⟩
    exact ⟨e, hcalls e he, hrest⟩
  refine ⟨hon, fun l hl => hr.trans (h.live l hl), hle, ?_,
    fun u hdue hl hpast => hfed (h.fed u hdue hl hpast), ?_⟩
  · intro c hc
    exact Int.le_of_eq (Option.some.inj hc).symm
  · rintro u hdue hl ⟨c, hc, hcu⟩
    obtain rfl := Option.some.inj hc
    by_cases hpast : 60000 * (u + 1) ≤ s.now
    · exact hfed (h.fed u hdue hl hpast)
    · -- the check is made in minute `u`
      have hmin : ∀ t : Int, 60000 * u ≤ t → t ≤ s.now →
          localtime (t / 1000) = localtime (60 * u) := by
        intro t h₁ h₂
        rw [← localtime_minute (t / 1000)]
        congr 2
        omega
      have hnow := hmin s.now hcu (Int.le_refl _)
      obtain ⟨l, hl', -⟩ := hl
      have hdue' : Due table (localtime (s.now / 1000)) := by
        rw [hnow]
        exact hdue
      by_cases hmem : s.runner.memory = (localtime (s.now / 1000)).key
      · obtain ⟨e, he, hge⟩ := hg.fresh rfl hdue' hmem
        have hge : 60000 * u ≤ e.1 := by omega
        exact ⟨e, hcalls e he, hge, by rw [hmin e.1 hge (h.calls_le e he)]⟩
      · obtain ⟨e, he, heq⟩ := hnew (by rw [h.live l hl']; exact hdue') hmem
        exact ⟨e, he, by omega, by rw [heq, hnow]⟩

/-- A step that keeps up keeps the invariant. -/
theorem Caught.step (h : Caught table s) (hg : KeepsUp table s a)
    (happ : s.apply cfg (· / 1000) table a = some s') : Caught table s' := by
  rcases SchedTask.apply_cases happ with
    ⟨ms, ok, pc, rfl, rfl⟩ | ⟨rfl, ⟨r, c, hc, rfl⟩ | ⟨r, hc, rfl⟩⟩
      | ⟨-, hnow, hrunner, hloaded, hchecked, hcalls⟩
  · exact h.fetch hg
  · obtain ⟨hon, hlive⟩ := checkAndFire_keeps (localtime (s.now / 1000)) s.runner
    rw [hc] at hon hlive
    refine h.check hg (fun e he => List.mem_cons_of_mem _ he) (fun e he => ?_)
      (fun _ _ => ⟨_, List.mem_cons_self, rfl⟩) (hon.trans h.onFeed) hlive
    rcases List.mem_cons.mp he with rfl | he
    · exact Int.le_refl _
    · exact h.calls_le e he
  · obtain ⟨hon, hlive⟩ := checkAndFire_keeps (localtime (s.now / 1000)) s.runner
    rw [hc] at hon hlive
    refine h.check hg (fun _ he => he) h.calls_le (fun hdue hmem => ?_)
      (hon.trans h.onFeed) hlive
    -- a due pair that is not remembered makes a callback
    obtain ⟨i, e, -, hfire⟩ := checkAndFire_fresh hdue hmem h.onFeed
    rw [hc] at hfire
    cases hfire
  · exact h.pass hg hnow hrunner hloaded hchecked hcalls

/-- In every run of `schedule_task` whose steps keep up, every due minute
that passes with the table loaded gets its callback. -/
theorem minutes_fed_of_keepsUp
    (hr : (schedTask cfg table start).ReachableBy (KeepsUp table) s) :
    MinutesFed table s :=
  (hr.invariant (I := Caught table) caught_init
    fun _ _ _ h hg happ => h.step hg happ).fed

/-- A step that ends within a minute of the last check, or of the
loading, passes no unsampled minute. -/
theorem sampled_of_soon {l : Int} (hl : s.loaded = some l)
    (hsoon : s.now + a.ms ≤ l + 60000
      ∨ ∃ c, s.checked = some c ∧ s.now + a.ms ≤ c + 60000)
    (u : Int) (hu : s.Loaded u) (hc : ∀ c, s.checked = some c → c < 60000 * u) :
    s.now + a.ms < 60000 * (u + 1) := by
  obtain ⟨l', hl', hlt⟩ := hu
  obtain rfl := Option.some.inj (hl.symm.trans hl')
  rcases hsoon with hsoon | ⟨c, hck, hsoon⟩
  · omega
  · have := hc c hck
    omega

/-- A step moves time forward and makes callbacks now, if at all. -/
theorem SchedTask.apply_calls (happ : s.apply cfg clock table a = some s') :
    s.now ≤ s'.now ∧ ∀ e ∈ s'.calls, e ∈ s.calls ∨ e.1 = s.now := by
  rcases SchedTask.apply_cases happ with
    ⟨ms, ok, pc, rfl, rfl⟩ | ⟨rfl, ⟨r, c, hc, rfl⟩ | ⟨r, hc, rfl⟩⟩
      | ⟨-, hnow, -, -, -, hcalls⟩
  · cases ok with
    | false => exact ⟨by show s.now ≤ s.now + ms; omega, fun _ he => .inl he⟩
    | true => exact ⟨by show s.now ≤ s.now + ms; omega, fun _ he => .inl he⟩
  · refine ⟨Int.le_refl _, fun e he => ?_⟩
    rcases List.mem_cons.mp he with rfl | he
    · exact .inr rfl
    · exact .inl he
  · exact ⟨Int.le_refl _, fun _ he => .inl he⟩
  · exact ⟨by omega, fun e he => .inl (hcalls ▸ he)⟩

/-- The callbacks a run adds are made in its own time. -/
theorem run_calls {acts : List SchedAction}
    (hrun : (schedTask cfg table start).run s acts = some s') :
    s.now ≤ s'.now
      ∧ ∀ e ∈ s'.calls, e ∈ s.calls ∨ (s.now ≤ e.1 ∧ e.1 ≤ s'.now) := by
  induction acts generalizing s with
  | nil =>
      obtain rfl := Option.some.inj hrun
      exact ⟨Int.le_refl _, fun _ he => .inl he⟩
  | cons a rest ih =>
      obtain ⟨s₁, happ, hrun₁⟩ := Machine.run_cons_inv hrun
      have happ : s.apply cfg (· / 1000) table a = some s₁ := happ
      obtain ⟨hle, hcalls⟩ := SchedTask.apply_calls happ
      obtain ⟨hle', hcalls'⟩ := ih hrun₁
      refine ⟨by omega, fun e he => ?_⟩
      rcases hcalls' e he with he | ⟨h₁, h₂⟩
      · rcases hcalls e he with he | heq
        · exact .inl he
        · exact .inr ⟨by omega, by omega⟩
      · exact .inr ⟨by omega, h₂⟩

-- ================================================== the repeated hour

/-- The memory is the pair of a callback, and callbacks lie in the
past. -/
structure Remembered (start : Int) (s : SchedTask) : Prop where
  onFeed : s.runner.onFeed = true
  memory : s.runner.memory = Runner.boot.memory
    ∨ ∃ e ∈ s.calls, (localtime (e.1 / 1000)).key = s.runner.memory
  le_now : start ≤ s.now
  calls_ge : ∀ e ∈ s.calls, start ≤ e.1

theorem Remembered.step (h : Remembered start s)
    (happ : s.apply cfg (· / 1000) table a = some s') : Remembered start s' := by
  rcases SchedTask.apply_cases happ with
    ⟨ms, ok, pc, rfl, rfl⟩ | ⟨rfl, ⟨r, c, hc, rfl⟩ | ⟨r, hc, rfl⟩⟩
      | ⟨-, hnow, hrunner, -, -, hcalls⟩
  · have hle := h.le_now
    cases ok with
    | false => exact ⟨h.onFeed, h.memory, by show start ≤ s.now + ms; omega,
        h.calls_ge⟩
    | true => exact ⟨h.onFeed, h.memory, by show start ≤ s.now + ms; omega,
        h.calls_ge⟩
  · have hmem := checkAndFire_memory (localtime (s.now / 1000)) h.onFeed
    have hon := (checkAndFire_keeps (localtime (s.now / 1000)) s.runner).1
    rw [hc] at hmem hon
    refine ⟨hon.trans h.onFeed, .inr ⟨_, List.mem_cons_self, hmem.symm⟩,
      h.le_now, fun e he => ?_⟩
    rcases List.mem_cons.mp he with rfl | he
    · exact h.le_now
    · exact h.calls_ge e he
  · have hmem := checkAndFire_memory (localtime (s.now / 1000)) h.onFeed
    have hon := (checkAndFire_keeps (localtime (s.now / 1000)) s.runner).1
    rw [hc] at hmem hon
    refine ⟨hon.trans h.onFeed, ?_, h.le_now, h.calls_ge⟩
    rw [show r.memory = s.runner.memory from hmem]
    exact h.memory
  · refine ⟨by rw [hrunner]; exact h.onFeed, ?_, ?_, ?_⟩
    · rw [hrunner, hcalls]
      exact h.memory
    · have := h.le_now
      omega
    · rw [hcalls]
      exact h.calls_ge

/-- Within a day of the start, a check finds the pair of an earlier minute
remembered in the repeated hour of the autumn change only: the callback
was made in daylight time, and the check is in standard time. -/
theorem remembered_in_fold (hr : (schedTask cfg table start).Reachable s)
    (hday : s.now < start + 86400000)
    (hmem : s.runner.memory = (localtime (s.now / 1000)).key)
    (hearlier : ∀ e ∈ s.calls, e.1 < 60000 * (s.now / 60000)) :
    ∃ e ∈ s.calls, isDst (e.1 / 1000) = true ∧ isDst (s.now / 1000) = false
      ∧ (localtime (e.1 / 1000)).hour = 1 := by
  have hrem := hr.invariant (I := Remembered start)
    ⟨rfl, .inl rfl, Int.le_refl _, fun _ he => by cases he⟩
    fun _ _ _ h _ happ => h.step happ
  rcases hrem.memory with hboot | ⟨e, he, hkey⟩
  · rw [hboot] at hmem
    exact absurd (congrArg some hmem) (boot_memory_ne _)
  · refine ⟨e, he, ?_⟩
    have hge := hrem.calls_ge e he
    have hlt := hearlier e he
    rw [hmem] at hkey
    have hdate := date_of_key (by omega) (by omega) hkey
    obtain ⟨hhour, hmin, -⟩ := Tm.key_eq_iff.mp hkey
    -- the second before this minute lies between and shows another one
    refine fold_of_repeat (x := 60 * (s.now / 1000 / 60) - 1) (by omega)
      (by omega) hdate hhour hmin ?_
    rw [hhour, hmin]
    exact localtime_before _

end Task

-- ================================================== a feed that swallows

/-- Monday 07:30 and 07:31. -/
def nearTable : List LocalSchedule :=
  [{ id := cstr "a", timeHhmm := cstr "07:30", days := (·.val == 0),
     grams := 60, enabled := true, assigned := true },
   { id := cstr "b", timeHhmm := cstr "07:31", days := (·.val == 0),
     grams := 60, enabled := true, assigned := true }]

/-- Monday 1 January 2024, 07:29:50. -/
def newYear : Int := 1704112190000

/-- The check of 07:30:00 feeds, for as long as the three durations
say. -/
def feedAt0730 (presence sitting rest : Nat) : List SchedAction :=
  [.fetch 0 true, .delay, .refresh, .check, .feed presence sitting rest]

/-- The task in the callback of that check. -/
def feedingAt0730 : SchedTask where
  now := newYear + 10000
  pc := .feed
  runner := { schedules := nearTable, lastFiredHhmm := cstr "07:30"
              lastFiredWday := 0, onFeed := true }
  lastRefresh := newYear
  refreshRequested := false
  loaded := some newYear
  checked := some (newYear + 10000)
  calls := [(newYear + 10000, { entry := 0, grams := 60
                                source := cstr "schedule", force := false })]

/-- The run to that callback keeps up. -/
theorem feedingAt0730_reachable :
    (schedTask .default nearTable newYear).ReachableBy (KeepsUp nearTable)
      feedingAt0730 := by
  have h₁ := Machine.ReachableBy.step
    (M := schedTask .default nearTable newYear) (G := KeepsUp nearTable)
    (.fetch 0 true) .init
    ⟨fun _ _ hl => by (obtain ⟨_, hl, -⟩ := hl; cases hl), by simp⟩ rfl
  have h₂ := Machine.ReachableBy.step .delay h₁
    ⟨fun u _ => sampled_of_soon rfl (.inl (by decide)) u, by simp⟩ rfl
  have h₃ := Machine.ReachableBy.step .refresh h₂
    ⟨fun u _ => sampled_of_soon rfl (.inl (by decide)) u, by simp⟩ rfl
  exact Machine.ReachableBy.step .check h₃
    ⟨fun u _ => sampled_of_soon rfl (.inl (by decide)) u,
      fun _ _ hmem => absurd (congrArg some hmem) (boot_memory_ne _)⟩ rfl

/-- A feed of 55 seconds leaves the minute after it to be sampled, and
the minute it began in has had its callback. -/
theorem minutes_fed_of_keepsUp_short :
    MinutesFed nearTable
      { feedingAt0730 with now := newYear + 75000, pc := .refresh } := by
  have hfeed : (schedTask .default nearTable newYear).apply (.feed 55000 0 0)
      feedingAt0730
      = some { feedingAt0730 with now := newYear + 65000, pc := .delay } := by
    simp [schedTask, SchedTask.apply, feedingAt0730, FeedTimeouts.default,
      newYear]
  have hsoon : feedingAt0730.now + (SchedAction.feed 55000 0 0).ms
      ≤ newYear + 10000 + 60000 := by
    simp [feedingAt0730, SchedAction.ms]
  have h₁ := Machine.ReachableBy.step (.feed 55000 0 0) feedingAt0730_reachable
    ⟨fun u _ => sampled_of_soon rfl (.inr ⟨_, rfl, hsoon⟩) u,
      fun h => (nomatch h)⟩ hfeed
  have hdelay : { feedingAt0730 with now := newYear + 65000
                                     pc := .delay }.apply .default (· / 1000)
      nearTable .delay
      = some { feedingAt0730 with now := newYear + 75000, pc := .refresh } := rfl
  refine minutes_fed_of_keepsUp (Machine.ReachableBy.step .delay h₁
    ⟨fun u _ _ hc => ?_, by simp⟩ hdelay)
  have hc : newYear + 10000 < 60000 * u := hc _ rfl
  show newYear + 75000 < _
  unfold newYear at hc ⊢
  omega

/-- A feed of 155 seconds, within the timeouts, passes 07:31 by, and
nothing makes up for it within the day. -/
theorem near_feed_swallowed :
    ∃ s, (schedTask .default nearTable newYear).run
        (schedTask .default nearTable newYear).init
        (feedAt0730 50000 100000 5000) = some s
      ∧ DueMinute nearTable 28401871 ∧ s.Loaded 28401871
      ∧ 60000 * (28401871 + 1) ≤ s.now
      ∧ ∀ acts s', (schedTask .default nearTable newYear).run s acts = some s' →
          s'.now ≤ newYear + 86400000 → ¬ s'.Fed 28401871 := by
  have hfacts : ((schedTask .default nearTable newYear).run
      (schedTask .default nearTable newYear).init
      (feedAt0730 50000 100000 5000)).map
        (fun s => (s.now, s.loaded, s.calls.map Prod.fst))
      = some (newYear + 165000, some newYear, [newYear + 10000]) := by
    decide
  obtain ⟨s, hs, hproj⟩ := Option.map_eq_some_iff.mp hfacts
  simp only [Prod.mk.injEq] at hproj
  obtain ⟨hnow, hloaded, hcalls⟩ := hproj
  refine ⟨s, hs, by decide, ⟨newYear, hloaded, by decide⟩, ?_, ?_⟩
  · rw [hnow]
    decide
  · rintro acts s' hrun hday ⟨e, he, hge, hkey⟩
    obtain ⟨-, hadded⟩ := run_calls hrun
    unfold newYear at hnow hcalls hday
    rcases hadded e he with he | ⟨h₁, h₂⟩
    · -- the callback of 07:30
      have := List.mem_map_of_mem (f := Prod.fst) he
      rw [hcalls, List.mem_singleton] at this
      omega
    · -- a later one shows another minute
      have hdate := date_of_key (by omega) (by omega) hkey.symm
      obtain ⟨hhour, hmin, -⟩ := Tm.key_eq_iff.mp hkey.symm
      have hsame : (60 * 28401871 - if isDst (60 * 28401871) then 14400
            else 18000) / 60
          = (e.1 / 1000 - if isDst (e.1 / 1000) then 14400 else 18000) / 60 :=
        (Tm.ofMinute_date_iff _ _).mp ⟨hdate, hhour, hmin⟩
      rw [if_neg (show ¬ isDst (60 * 28401871) = true by decide)] at hsame
      split at hsame <;> omega

end SitNChow
