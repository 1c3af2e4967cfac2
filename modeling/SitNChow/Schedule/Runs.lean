/-
Runs of the schedule runner: which due feeds a run of `check_and_fire`
calls makes, over days and weeks.

# Runs that sample every minute

The first half takes calls at nondecreasing local times that reach every
minute between the first and the last, with a table that may change from
minute to minute. The memory holds one pair, so a due minute is skipped
exactly when the last due minute before it showed the same `HH:mm` on
the same weekday: `WeeklyRepeat`. `feedsIn_due` is the count for one
minute, and a table whose only entry is a weekly one meets the repeat in
its second week.

# Runs over the autumn change

The second half takes calls at nondecreasing UTC times under the zone of
`app_main`, where local time runs through 01:00-01:59 twice on one date.
A minute seen again is fed again exactly when another due minute came in
between to displace it from the memory: `FoldRepeat`.
-/
import SitNChow.Schedule.Runner

namespace SitNChow

open Kit

-- ================================================ runs minute by minute

/-- The local minutes at which a run of calls checks the table. -/
def minutes (calls : List Int) : List Int := calls.map (· / 60)

/-- Calls at nondecreasing local times (in seconds) that reach every
minute between any two of them. -/
structure MinuteRun (calls : List Int) : Prop where
  ordered : calls.Pairwise (· ≤ ·)
  sampled : ∀ m ∈ minutes calls, ∀ n ∈ minutes calls, ∀ y, m ≤ y → y ≤ n →
    y ∈ minutes calls

/-- The table of a minute holds an entry for that minute. -/
def DueAt (table : Int → List LocalSchedule) (m : Int) : Prop :=
  Due (table m) (Tm.ofMinute m)

/-- The callbacks a run makes from boot, under the table of each
minute. -/
def minuteFeeds (table : Int → List LocalSchedule) (calls : List Int) :
    List (Int × FeedCall) :=
  runChecks Tm.ofLocal (fun l => table (l / 60)) Runner.boot calls

/-- How many callbacks a run makes within minute `m`. -/
def feedsIn (table : Int → List LocalSchedule) (calls : List Int) (m : Int) :
    Nat :=
  ((minuteFeeds table calls).map (·.1 / 60)).count m

/-- Two due minutes with nothing due between them, the second a whole
number of weeks after the first. -/
def WeeklyRepeat (table : Int → List LocalSchedule) (m' m : Int) : Prop :=
  m' < m ∧ DueAt table m' ∧ DueAt table m
    ∧ (∀ y, m' < y → y < m → ¬ DueAt table y) ∧ (10080 : Int) ∣ m - m'

section Minutes

variable {table : Int → List LocalSchedule} {calls : List Int} {m : Int}

/-- The minutes fed, in order: what the recall filter lets through of
the minutes checked. -/
theorem minuteFeeds_minutes :
    (minuteFeeds table calls).map (·.1 / 60)
      = Recall.pass (fun y => observed (table y) (Tm.ofMinute y))
          (some Runner.boot.memory) (minutes calls) := by
  have hpass := runChecks_times Tm.ofLocal (fun l => table (l / 60))
    (r := Runner.boot) rfl calls
  rw [minutes, Recall.pass_map (· / 60)]
  rw [show (fun e : Int × FeedCall => e.1 / 60)
      = (fun l : Int => l / 60) ∘ Prod.fst from rfl, ← List.map_map]
  exact congrArg (List.map (· / 60)) hpass

/-- The minutes of an ordered run are ordered. -/
theorem MinuteRun.minutes_ordered (h : MinuteRun calls) :
    (minutes calls).Pairwise (· ≤ ·) := by
  refine List.pairwise_map.mpr (h.ordered.imp ?_)
  intro a b hab
  omega

/-- No minute is fed twice. -/
theorem feedsIn_le_one (table : Int → List LocalSchedule) (m : Int)
    (h : MinuteRun calls) : feedsIn table calls m ≤ 1 := by
  have hnodup : ((minuteFeeds table calls).map (·.1 / 60)).Nodup := by
    rw [minuteFeeds_minutes]
    exact (Recall.pass_strictly_sorted h.minutes_ordered).imp
      fun hlt => Int.ne_of_lt hlt
  exact List.nodup_iff_count.mp hnodup m

/-- A due minute of a run is fed once, unless it repeats the due minute
before it a whole number of weeks later; then it is not fed. -/
theorem feedsIn_due (h : MinuteRun calls) (hm : m ∈ minutes calls)
    (hdue : DueAt table m) :
    feedsIn table calls m = 1
      ↔ ∀ m' ∈ minutes calls, ¬ WeeklyRepeat table m' m := by
  have hone : feedsIn table calls m = 1
      ↔ m ∈ (minuteFeeds table calls).map (·.1 / 60) := by
    have hle := feedsIn_le_one table m h
    rw [← List.one_le_count_iff]
    unfold feedsIn at hle ⊢
    omega
  rw [hone, minuteFeeds_minutes,
    Recall.mem_pass_sorted_iff h.minutes_ordered hm
      (observed_eq_some.mpr ⟨hdue, rfl⟩) (boot_memory_ne _)]
  refine forall₂_congr fun m' hm' => ?_
  -- the same pair at two minutes is a whole number of weeks
  have hweek : (Tm.ofMinute m').key = (Tm.ofMinute m).key
      ↔ (10080 : Int) ∣ m - m' := by
    rw [eq_comm, Tm.key_eq_iff, Tm.ofMinute_week_iff]
  simp only [ne_eq, observed_eq_none, observed_eq_some, hweek]
  refine ⟨fun hf ⟨hlt, hdue', _, hidle, hdvd⟩ => ?_,
    fun hnot hlt hidle ⟨hdue', hdvd⟩ => ?_⟩
  · exact hf hlt (fun y _ h₁ h₂ => hidle y h₁ h₂) ⟨hdue', hdvd⟩
  · refine hnot ⟨hlt, hdue', hdue, fun y h₁ h₂ => ?_, hdvd⟩
    exact hidle y (h.sampled m' hm' m hm y (by omega) (by omega)) h₁ h₂

/-- Every due minute of a run is fed exactly once if and only if no two
successive due minutes of it lie a whole number of weeks apart. -/
theorem due_minutes_fed_iff (table : Int → List LocalSchedule)
    (h : MinuteRun calls) :
    (∀ m ∈ minutes calls, DueAt table m → feedsIn table calls m = 1)
      ↔ ∀ m' ∈ minutes calls, ∀ m ∈ minutes calls,
          ¬ WeeklyRepeat table m' m := by
  refine ⟨fun hfed m' hm' m hm hrep => ?_, fun hnot m hm hdue => ?_⟩
  · have hdue := hrep.2.2.1
    exact (feedsIn_due h hm hdue).mp (hfed m hm hdue) m' hm' hrep
  · exact (feedsIn_due h hm hdue).mpr fun m' hm' => hnot m' hm' m hm

end Minutes

/-- A table with one entry: Monday, 07:30. -/
def mondayTable : List LocalSchedule :=
  [{ id := cstr "weekly", timeHhmm := cstr "07:30", days := (·.val == 0),
     grams := 60, enabled := true, assigned := true }]

/-- One call a minute, from the first Monday of the count at 07:30 for
`n` minutes. -/
def callsFromMonday (n : Nat) : List Int :=
  (List.range n).map fun k : Nat => (6210 + (k : Int)) * 60

theorem minutes_callsFromMonday (n : Nat) :
    minutes (callsFromMonday n)
      = (List.range n).map fun k : Nat => 6210 + (k : Int) := by
  simp only [minutes, callsFromMonday, List.map_map]
  refine List.map_congr_left fun k _ => ?_
  simp

theorem callsFromMonday_run (n : Nat) : MinuteRun (callsFromMonday n) := by
  refine ⟨List.pairwise_map.mpr ?_, ?_⟩
  · refine List.pairwise_lt_range.imp ?_
    intro a b hab
    omega
  · intro m hm p hp y hmy hyp
    rw [minutes_callsFromMonday, List.mem_map] at hm hp ⊢
    obtain ⟨i, hi, rfl⟩ := hm
    obtain ⟨j, hj, rfl⟩ := hp
    refine ⟨(y - 6210).toNat, ?_, by omega⟩
    rw [List.mem_range] at hj ⊢
    omega

/-- A run of a day from that Monday feeds its due minute. -/
theorem due_minutes_fed_monday :
    MinuteRun (callsFromMonday 1440)
      ∧ ∀ m ∈ minutes (callsFromMonday 1440), DueAt (fun _ => mondayTable) m →
          feedsIn (fun _ => mondayTable) (callsFromMonday 1440) m = 1 := by
  refine ⟨callsFromMonday_run 1440, (due_minutes_fed_iff (fun _ => mondayTable)
    (callsFromMonday_run 1440)).mpr fun m' hm' m hm hrep => ?_⟩
  rw [minutes_callsFromMonday, List.mem_map] at hm hm'
  obtain ⟨i, hi, rfl⟩ := hm
  obtain ⟨j, hj, rfl⟩ := hm'
  obtain ⟨hlt, -, -, -, hdvd⟩ := hrep
  rw [List.mem_range] at hi hj
  omega

/-- Over a week and a minute, the Monday entry is fed in the first week
and skipped in the second. -/
theorem second_week_skipped :
    MinuteRun (callsFromMonday 10081)
      ∧ 6210 ∈ minutes (callsFromMonday 10081)
      ∧ DueAt (fun _ => mondayTable) 6210
      ∧ feedsIn (fun _ => mondayTable) (callsFromMonday 10081) 6210 = 1
      ∧ 16290 ∈ minutes (callsFromMonday 10081)
      ∧ DueAt (fun _ => mondayTable) 16290
      ∧ feedsIn (fun _ => mondayTable) (callsFromMonday 10081) 16290 = 0 := by
  have hrun := callsFromMonday_run 10081
  have hmem : ∀ m : Int, m ∈ minutes (callsFromMonday 10081)
      ↔ 6210 ≤ m ∧ m ≤ 16290 := by
    intro m
    rw [minutes_callsFromMonday, List.mem_map]
    refine ⟨fun ⟨k, hk, he⟩ => ?_, fun hm => ⟨(m - 6210).toNat, ?_, by omega⟩⟩
    · rw [List.mem_range] at hk
      omega
    · rw [List.mem_range]
      omega
  have hdue : ∀ m, DueAt (fun _ => mondayTable) m
      ↔ (10080 : Int) ∣ m - 6210 := by
    intro m
    rw [← Tm.ofMinute_week_iff]
    simp only [DueAt, Due, mondayTable, List.mem_singleton, exists_eq_left,
      true_and, beq_iff_eq]
    rw [show cstr "07:30" = hhmm (Tm.ofMinute 6210).hour (Tm.ofMinute 6210).min
      by decide, hhmm_inj,
      show 0 = (tmWdayToIsoIndex (Tm.ofMinute 6210).wday).val by decide,
      Fin.val_inj, tmWdayToIsoIndex_inj]
    tauto
  refine ⟨hrun, (hmem _).mpr (by omega), (hdue _).mpr (by omega), ?_,
    (hmem _).mpr (by omega), (hdue _).mpr (by omega), ?_⟩
  · refine (feedsIn_due hrun ((hmem _).mpr (by omega))
      ((hdue _).mpr (by omega))).mpr fun m' hm' hrep => ?_
    have h₁ := ((hmem m').mp hm').1
    have h₂ := hrep.1
    omega
  · have hle := feedsIn_le_one (fun _ => mondayTable) 16290 hrun
    have hne := mt (feedsIn_due hrun ((hmem 16290).mpr (by omega))
      ((hdue 16290).mpr (by omega))).mp fun hnot =>
        hnot 6210 ((hmem _).mpr (by omega))
          ⟨by omega, (hdue _).mpr (by omega), (hdue _).mpr (by omega),
            fun y h₁ h₂ hy => by
              have := (hdue y).mp hy
              omega,
            by omega⟩
    omega

-- ============================================== runs across the year

/-- The callbacks a run of calls at UTC times makes from boot, under one
table. -/
def dayFeeds (table : List LocalSchedule) (calls : List Int) :
    List (Int × FeedCall) :=
  runChecks localtime (fun _ => table) Runner.boot calls

/-- No entry makes two callbacks with one local date. -/
def FeedsOncePerDay (table : List LocalSchedule) (calls : List Int) : Prop :=
  (dayFeeds table calls).Pairwise fun e e' =>
    ¬ (e.2.entry = e'.2.entry
      ∧ (localtime e.1).date = (localtime e'.1).date)

instance (table : List LocalSchedule) (calls : List Int) :
    Decidable (FeedsOncePerDay table calls) :=
  inferInstanceAs (Decidable (List.Pairwise _ _))

/-- Two instants show the same `HH:mm`. -/
def SameMinute (a b : Int) : Prop :=
  (localtime a).hour = (localtime b).hour
    ∧ (localtime a).min = (localtime b).min

/-- A due minute of the repeated hour is seen twice on the change date:
at `a` in daylight time, when it is no repeat of the due call before it,
and at `b` in standard time, after another due minute has come in
between. The calls before `a` are `pre`, those between are `mid`. -/
structure FoldRepeat (table : List LocalSchedule) (pre : List Int) (a : Int)
    (mid : List Int) (b : Int) : Prop where
  due : Due table (localtime a)
  fresh : ∀ p c q, pre = p ++ c :: q → Due table (localtime c) →
    (∀ y ∈ q, ¬ Due table (localtime y)) →
      ¬ ((localtime c).wday = (localtime a).wday ∧ SameMinute c a)
  displaced : ∃ x ∈ mid, Due table (localtime x) ∧ ¬ SameMinute x a
  date : (localtime a).date = (localtime b).date
  minute : SameMinute a b
  daylight : isDst a = true
  standard : isDst b = false
  hour : (localtime a).hour = 1

section Days

variable {table : List LocalSchedule} {calls : List Int} {a b x : Int}

/-- The index of the entry a scan at a local time finds. -/
def entryAt (table : List LocalSchedule) (tm : Tm) : Option Nat :=
  (scan (hhmm tm.hour tm.min) (tmWdayToIsoIndex tm.wday) 0 table).map Prod.fst

/-- Two due times that find the same entry show the same `HH:mm`: the
entry's own. -/
theorem minute_of_entry {s t : Tm} (hs : Due table s) (ht : Due table t)
    (he : entryAt table s = entryAt table t) :
    s.hour = t.hour ∧ s.min = t.min := by
  rw [due_iff_scan, Option.isSome_iff_exists] at hs ht
  obtain ⟨⟨i, e⟩, hi⟩ := hs
  obtain ⟨⟨j, e'⟩, hj⟩ := ht
  rw [entryAt, entryAt, hi, hj] at he
  obtain rfl : i = j := Option.some.inj he
  obtain ⟨-, hget, -, -, htime, -⟩ := scan_some hi
  obtain ⟨-, hget', -, -, htime', -⟩ := scan_some hj
  obtain rfl : e = e' := Option.some.inj (hget.symm.trans hget')
  exact hhmm_inj.mp (htime.symm.trans htime')

/-- The pair observed at a UTC time. -/
def observedAt (table : List LocalSchedule) (utc : Int) : Option Key :=
  observed table (localtime utc)

theorem observedAt_eq_some {k : Key} :
    observedAt table a = some k ↔
      Due table (localtime a) ∧ (localtime a).key = k :=
  observed_eq_some

theorem observedAt_eq_none :
    observedAt table a = none ↔ ¬ Due table (localtime a) :=
  observed_eq_none

/-- On one date the weekday is one. -/
theorem localtime_wday_of_date
    (h : (localtime a).date = (localtime b).date) :
    (localtime a).wday = (localtime b).wday :=
  Tm.ofMinute_wday_of_date h

/-- On one date the pair shown is the minute shown. -/
theorem key_eq_iff_sameMinute
    (h : (localtime a).date = (localtime b).date) :
    (localtime a).key = (localtime b).key ↔ SameMinute a b := by
  rw [Tm.key_eq_iff]
  exact ⟨fun ⟨h₁, h₂, _⟩ => ⟨h₁, h₂⟩,
    fun ⟨h₁, h₂⟩ => ⟨h₁, h₂, localtime_wday_of_date h⟩⟩

/-- In a sorted list, what comes between two elements lies between
them. -/
theorem between_of_sorted (hsort : calls.Pairwise (· ≤ ·))
    {pre mid post : List Int} (hcalls : calls = pre ++ a :: (mid ++ b :: post)) :
    ∀ y ∈ mid ++ [b], a ≤ y ∧ y ≤ b := by
  subst hcalls
  obtain ⟨ha, hmid⟩ := List.pairwise_cons.mp (List.pairwise_append.mp hsort).2.1
  intro y hy
  rcases List.mem_append.mp hy with hy | hy
  · exact ⟨ha y (by simp [hy]),
      (List.pairwise_append.mp hmid).2.2 y hy b (by simp)⟩
  · rw [List.mem_singleton] at hy
    exact ⟨ha y (by simp [hy]), by omega⟩

/-- Between two instants of one date the date is that one. -/
theorem localtime_date_between (hax : a ≤ x) (hxb : x ≤ b)
    (h : (localtime a).date = (localtime b).date) :
    (localtime x).date = (localtime a).date := by
  have h₁ := localtime_date_mono hax
  have h₂ := localtime_date_mono hxb
  omega

/-- Once a day, said of the instants that get through the filter: no two
of them show one date and one minute. -/
theorem feedsOncePerDay_iff_pass :
    FeedsOncePerDay table calls ↔
      (Recall.pass (observedAt table)
        (some Runner.boot.memory) calls).Pairwise fun a b =>
          ¬ ((localtime a).key = (localtime b).key
            ∧ (localtime a).date = (localtime b).date) := by
  have hpass : (dayFeeds table calls).map Prod.fst
      = Recall.pass (observedAt table) (some Runner.boot.memory) calls :=
    runChecks_times _ _ rfl calls
  rw [← hpass, List.pairwise_map]
  refine List.Pairwise.iff_of_mem fun {e e'} he he' => not_congr ?_
  obtain ⟨s, hs, -⟩ := mem_runChecks he
  obtain ⟨s', hs', -⟩ := mem_runChecks he'
  have hdue : Due table (localtime e.1) := by
    rw [due_iff_scan, hs]
    rfl
  have hdue' : Due table (localtime e'.1) := by
    rw [due_iff_scan, hs']
    rfl
  have hentry : entryAt table (localtime e.1) = some e.2.entry := by
    rw [entryAt, hs]
    rfl
  have hentry' : entryAt table (localtime e'.1) = some e'.2.entry := by
    rw [entryAt, hs']
    rfl
  refine and_congr_left fun hdate => ⟨fun heq => ?_, fun hkey => ?_⟩
  · refine (key_eq_iff_sameMinute hdate).mpr (minute_of_entry hdue hdue' ?_)
    rw [hentry, hentry', heq]
  · obtain ⟨hh, hm, hw⟩ := Tm.key_eq_iff.mp hkey
    have : entryAt table (localtime e.1) = entryAt table (localtime e'.1) := by
      rw [entryAt, entryAt, hh, hm, hw]
    rw [hentry, hentry'] at this
    exact Option.some.inj this

/-- The filter lets an instant through at boot when it is due and no
repeat of the due call before it. -/
theorem fresh_iff {pre : List Int} :
    Recall.Fresh (observedAt table) (some Runner.boot.memory) pre a
      ↔ Due table (localtime a) ∧ ∀ p c q, pre = p ++ c :: q →
        Due table (localtime c) → (∀ y ∈ q, ¬ Due table (localtime y)) →
          ¬ ((localtime c).wday = (localtime a).wday ∧ SameMinute c a) := by
  constructor
  · rintro ⟨k, hk, hs⟩
    obtain ⟨hdue, rfl⟩ := observedAt_eq_some.mp hk
    refine ⟨hdue, fun p c q hpre hc hq ⟨hw, hh, hm⟩ => hs ?_⟩
    exact Recall.slot_eq_some_iff.mpr (.inr ⟨p, c, q, hpre,
      observedAt_eq_some.mpr ⟨hc, Tm.key_eq_iff.mpr ⟨hh, hm, hw⟩⟩,
      fun y hy => observedAt_eq_none.mpr (hq y hy)⟩)
  · rintro ⟨hdue, hfresh⟩
    refine ⟨_, observedAt_eq_some.mpr ⟨hdue, rfl⟩, fun hslot => ?_⟩
    rcases Recall.slot_eq_some_iff.mp hslot with
      ⟨hb, -⟩ | ⟨p, c, q, hpre, hc, hq⟩
    · exact boot_memory_ne _ hb
    · obtain ⟨hdc, hck⟩ := observedAt_eq_some.mp hc
      obtain ⟨hh, hm, hw⟩ := Tm.key_eq_iff.mp hck
      exact hfresh p c q hpre hdc (fun y hy => observedAt_eq_none.mp (hq y hy))
        ⟨hw, hh, hm⟩

/-- A minute of the fold that comes back after another due minute is
fed again, by the same entry: first at `a`, then at the first call after
the other minute that shows it. -/
theorem fold_feeds_twice (hsort : calls.Pairwise (· ≤ ·))
    {pre mid post : List Int} (hcalls : calls = pre ++ a :: (mid ++ b :: post))
    (hrep : FoldRepeat table pre a mid b) : ¬ FeedsOncePerDay table calls := by
  obtain ⟨hdue, hfresh, ⟨x, hx, hdx, hxa⟩, hdate, hmin, -⟩ := hrep
  rw [feedsOncePerDay_iff_pass, Recall.pass_pairwise_iff]
  intro hp
  have hle := between_of_sorted hsort hcalls
  have hkab : (localtime a).key = (localtime b).key :=
    (key_eq_iff_sameMinute hdate).mpr hmin
  have hobsb : observedAt table b = some (localtime a).key := by
    obtain ⟨hh, hm, hw⟩ := Tm.key_eq_iff.mp hkab
    refine observedAt_eq_some.mpr ⟨?_, hkab.symm⟩
    unfold Due at hdue ⊢
    rw [← hh, ← hm, ← hw]
    exact hdue
  have hfa := fresh_iff.mpr ⟨hdue, hfresh⟩
  -- the first call after the other minute that shows the minute again
  obtain ⟨m₁, m₂, rfl⟩ := List.append_of_mem hx
  have hxdate : (localtime x).date = (localtime a).date :=
    localtime_date_between (hle x (by simp)).1 (hle x (by simp)).2 hdate
  have hb : b ∈ m₂ ++ [b] := by simp
  have hxkey : some (localtime x).key ≠ some (localtime a).key := by
    intro he
    exact hxa ((key_eq_iff_sameMinute hxdate).mp (Option.some.inj he))
  obtain ⟨p, y, q, hpq, hy, k, hk, hs⟩ := Recall.exists_fresh hobsb hb hxkey
  have hya : a ≤ y ∧ y ≤ b := hle y (by
    rw [List.append_assoc, List.cons_append, hpq]
    simp)
  have hydate := localtime_date_between hya.1 hya.2 hdate
  have hlist : calls = pre ++ a :: ((m₁ ++ x :: p) ++ y :: (q ++ post)) := by
    have hmid : m₂ ++ b :: post = p ++ y :: (q ++ post) := by
      simpa using congrArg (· ++ post) hpq
    rw [hcalls, List.append_assoc, List.cons_append, hmid]
    simp
  refine hp _ _ _ _ _ hlist hfa ⟨k, hk, ?_⟩
    ⟨(observedAt_eq_some.mp hy).2.symm, hydate.symm⟩
  rw [show pre ++ a :: (m₁ ++ x :: p) = (pre ++ a :: m₁ ++ [x]) ++ p by simp,
    Recall.slot_append, Recall.slot_append,
    Recall.slot_cons_some (observedAt_eq_some.mpr ⟨hdx, rfl⟩)]
  exact hs

/-- Two feeds of one minute on one date come from the fold: the memory
was displaced in between, and only the repeated hour shows a minute
twice. -/
theorem fold_of_feeds_twice (hsort : calls.Pairwise (· ≤ ·))
    {pre mid post : List Int} (hcalls : calls = pre ++ a :: (mid ++ b :: post))
    (hfa : Recall.Fresh (observedAt table)
      (some Runner.boot.memory) pre a)
    (hfb : Recall.Fresh (observedAt table)
      (some Runner.boot.memory) (pre ++ a :: mid) b)
    (hkey : (localtime a).key = (localtime b).key)
    (hdate : (localtime a).date = (localtime b).date) :
    FoldRepeat table pre a mid b := by
  obtain ⟨hdue, hfresh⟩ := fresh_iff.mp hfa
  have hk : observedAt table a = some (localtime a).key :=
    observedAt_eq_some.mpr ⟨hdue, rfl⟩
  obtain ⟨k', hk', hs'⟩ := hfb
  obtain ⟨-, rfl⟩ := observedAt_eq_some.mp hk'
  have hle : ∀ y ∈ mid, a ≤ y ∧ y ≤ b := fun y hy =>
    between_of_sorted hsort hcalls y (List.mem_append_left _ hy)
  have hother : ∃ x ∈ mid, Due table (localtime x) ∧ ¬ SameMinute x a := by
    by_contra hnone
    refine hs' ?_
    rw [Recall.slot_append, Recall.slot_cons_some hk, ← hkey]
    refine Recall.slot_stay fun y hy => ?_
    by_cases hdy : Due table (localtime y)
    · have hsame : SameMinute y a := by
        by_contra hne
        exact hnone ⟨y, hy, hdy, hne⟩
      have hydate := localtime_date_between (hle y hy).1 (hle y hy).2 hdate
      exact .inr (observedAt_eq_some.mpr
        ⟨hdy, (key_eq_iff_sameMinute hydate).mpr hsame⟩)
    · exact .inl (observedAt_eq_none.mpr hdy)
  have hmin := (key_eq_iff_sameMinute hdate).mp hkey
  have hx := hother
  obtain ⟨x, hx, -, hxa⟩ := hx
  obtain ⟨hd, hnd, hhour⟩ := fold_of_repeat (hle x hx).1 (hle x hx).2 hdate
    hmin.1 hmin.2 hxa
  exact ⟨hdue, hfresh, hother, hdate, hmin, hd, hnd, hhour⟩

/-- A run feeds each entry at most once a date if and only if it holds
no repeat of the fold. -/
theorem once_per_day_iff (table : List LocalSchedule)
    (hsort : calls.Pairwise (· ≤ ·)) :
    FeedsOncePerDay table calls ↔
      ∀ pre a mid b post, calls = pre ++ a :: (mid ++ b :: post) →
        ¬ FoldRepeat table pre a mid b := by
  refine ⟨fun honce pre a mid b post hcalls hrep =>
    fold_feeds_twice hsort hcalls hrep honce, fun hnot => ?_⟩
  rw [feedsOncePerDay_iff_pass, Recall.pass_pairwise_iff]
  intro pre a mid b post hcalls hfa hfb ⟨hkey, hdate⟩
  exact hnot pre a mid b post hcalls
    (fold_of_feeds_twice hsort hcalls hfa hfb hkey hdate)

end Days

/-- Two entries for Sunday, at 01:10 and at 01:20. -/
def sundayTable : List LocalSchedule :=
  [{ id := cstr "a", timeHhmm := cstr "01:10", days := (·.val == 6),
     grams := 30, enabled := true, assigned := true },
   { id := cstr "b", timeHhmm := cstr "01:20", days := (·.val == 6),
     grams := 30, enabled := true, assigned := true }]

/-- 3 November 2024: 01:10 and 01:20 in daylight time, then 01:10 in
standard time. -/
def fallBack : List Int := [1730610600, 1730611200, 1730614200]

/-- The run over the autumn change holds a repeat of the fold. -/
theorem once_per_day_fallBack :
    ∃ pre a mid b post, fallBack = pre ++ a :: (mid ++ b :: post)
      ∧ FoldRepeat sundayTable pre a mid b := by
  by_contra hnone
  have hsort : fallBack.Pairwise (· ≤ ·) := by decide
  have honce := (once_per_day_iff sundayTable hsort).mpr
    fun pre a mid b post hcalls hrep =>
      hnone ⟨pre, a, mid, b, post, hcalls, hrep⟩
  exact absurd honce (by decide)

/-- On the change date the 01:10 entry is fed twice. -/
theorem fallBack_fed_twice :
    fallBack.Pairwise (· ≤ ·)
      ∧ (dayFeeds sundayTable fallBack).map
          (fun e => (e.2.entry, (localtime e.1).date))
        = [(0, 20030), (1, 20030), (0, 20030)]
      ∧ ¬ FeedsOncePerDay sundayTable fallBack := by
  decide

end SitNChow
