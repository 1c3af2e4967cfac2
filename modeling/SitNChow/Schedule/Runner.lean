/-
The schedule runner (schedule_runner.c): the loaded table, the memory of
the last feed, and `check_and_fire`, which decides at each wake-up
whether a feed is due.

# The memory

The runner remembers the `HH:mm` string and the weekday it last fired
on, and skips a wake-up that shows the same pair. Over a run of wake-ups
that is the one-slot recall filter of `Kit.Recall`, keyed by the pair:
`runChecks_times` is the refinement, and every result about runs goes
through it.

`check_and_fire` scans the table for the first entry that is enabled,
assigned to this device, set for the current `HH:mm` and active on the
current weekday; at most one entry fires per wake-up.
-/
import SitNChow.Clock
import SitNChow.CJson
import SitNChow.Kit.Recall

namespace SitNChow

open Kit

-- ============================================================= the data

/-- `local_schedule_t`: one entry of the parsed table. -/
structure LocalSchedule where
  id : CString
  timeHhmm : CString
  days : Fin 7 → Bool
  grams : Int
  enabled : Bool
  assigned : Bool

/-- The module state of schedule_runner.c that `check_and_fire` uses:
`s_schedules[0 .. s_schedule_count)`, the last-fired pair, and whether a
feed callback is registered. -/
structure Runner where
  schedules : List LocalSchedule
  lastFiredHhmm : CString
  lastFiredWday : Int
  onFeed : Bool

/-- A call of the feed callback: its arguments, and the table index of
the entry that fired. -/
structure FeedCall where
  entry : Nat
  grams : Int
  source : CString
  force : Bool
deriving DecidableEq

/-- The state `schedule_runner_start` leaves before the first fetch. -/
def Runner.boot : Runner where
  schedules := []
  lastFiredHhmm := []
  lastFiredWday := -1
  onFeed := true

-- ============================================================ the check

/-- The ASCII digit of `n < 10`. -/
def digit (n : Nat) : UInt8 := UInt8.ofNat (48 + n)

/-- `snprintf(.., "%02d:%02d", hour, min)`: five bytes, as both fields
have two digits. -/
def hhmm (hour : Fin 24) (min : Fin 60) : CString :=
  [digit (hour / 10), digit (hour % 10), 58, digit (min / 10),
    digit (min % 10)]

/-- `tm_wday_to_iso_index`: Sunday-first to Monday-first. -/
def tmWdayToIsoIndex (tmWday : Fin 7) : Fin 7 :=
  if tmWday = 0 then 6 else tmWday - 1

/-- The scan of `check_and_fire`: the first entry, with its index, that
passes the three `continue` tests. -/
def scan (currentHhmm : CString) (isoDayIdx : Fin 7) :
    Nat → List LocalSchedule → Option (Nat × LocalSchedule)
  | _, [] => none
  | i, s :: rest =>
      if !s.enabled || !s.assigned then scan currentHhmm isoDayIdx (i + 1) rest
      else if s.timeHhmm ≠ currentHhmm then
        scan currentHhmm isoDayIdx (i + 1) rest
      else if !s.days isoDayIdx then scan currentHhmm isoDayIdx (i + 1) rest
      else some (i, s)

/-- `check_and_fire` at local time `tm`: the new state and the callback
made, if any. -/
def checkAndFire (tm : Tm) (r : Runner) : Runner × Option FeedCall :=
  let currentHhmm := hhmm tm.hour tm.min
  let isoDayIdx := tmWdayToIsoIndex tm.wday
  if currentHhmm = r.lastFiredHhmm ∧ (isoDayIdx.val : Int) = r.lastFiredWday
  then (r, none)
  else
    match scan currentHhmm isoDayIdx 0 r.schedules with
    | none => (r, none)
    | some (i, s) =>
        ({ r with lastFiredHhmm := currentHhmm
                  lastFiredWday := isoDayIdx.val },
          if r.onFeed then
            some { entry := i, grams := s.grams,
                   source := cstr "schedule", force := false }
          else none)

-- ================================================== keys and due times

/-- The pair the runner remembers: the `HH:mm` string and the weekday
index. -/
abbrev Key := CString × Int

/-- The pair a local time shows. -/
def Tm.key (tm : Tm) : Key :=
  (hhmm tm.hour tm.min, (tmWdayToIsoIndex tm.wday).val)

/-- The pair in the runner's memory. -/
def Runner.memory (r : Runner) : Key := (r.lastFiredHhmm, r.lastFiredWday)

/-- The table holds an entry that is enabled, assigned to this device,
set for the local time's `HH:mm` and active on its weekday. -/
def Due (table : List LocalSchedule) (tm : Tm) : Prop :=
  ∃ s ∈ table, s.enabled = true ∧ s.assigned = true
    ∧ s.timeHhmm = hhmm tm.hour tm.min
    ∧ s.days (tmWdayToIsoIndex tm.wday) = true

instance (table : List LocalSchedule) (tm : Tm) : Decidable (Due table tm) :=
  inferInstanceAs (Decidable (∃ s ∈ table, _))

/-- What a wake-up shows the memory: its pair when a feed is due. -/
def observed (table : List LocalSchedule) (tm : Tm) : Option Key :=
  if Due table tm then some tm.key else none

/-- A scan that finds an entry finds one that matches, at its own
index. -/
theorem scan_some {h : CString} {d : Fin 7} :
    ∀ {l : List LocalSchedule} {i j : Nat} {s : LocalSchedule},
      scan h d i l = some (j, s) →
        i ≤ j ∧ l[j - i]? = some s ∧ s.enabled = true ∧ s.assigned = true
          ∧ s.timeHhmm = h ∧ s.days d = true := by
  intro l
  induction l with
  | nil =>
      intro i j s hs
      cases hs
  | cons a l ih =>
      intro i j s hs
      have hlater : scan h d (i + 1) l = some (j, s) →
          i ≤ j ∧ (a :: l)[j - i]? = some s ∧ s.enabled = true
            ∧ s.assigned = true ∧ s.timeHhmm = h ∧ s.days d = true := by
        intro hs
        obtain ⟨hij, hget, hrest⟩ := ih hs
        refine ⟨by omega, ?_, hrest⟩
        rw [show j - i = (j - (i + 1)) + 1 by omega, List.getElem?_cons_succ]
        exact hget
      unfold scan at hs
      split at hs
      · exact hlater hs
      · split at hs
        · exact hlater hs
        · split at hs
          · exact hlater hs
          · next h₁ h₂ h₃ =>
            simp only [Option.some.injEq, Prod.mk.injEq] at hs
            obtain ⟨rfl, rfl⟩ := hs
            simp only [Bool.or_eq_true, Bool.not_eq_true', not_or,
              Bool.not_eq_false, ne_eq, not_not] at h₁ h₂ h₃
            exact ⟨Nat.le_refl _, by simp, h₁.1, h₁.2, h₂, h₃⟩

/-- The scan finds an entry exactly when one matches. -/
theorem scan_isSome {h : CString} {d : Fin 7} :
    ∀ {l : List LocalSchedule} {i : Nat},
      (scan h d i l).isSome = true ↔
        ∃ s ∈ l, s.enabled = true ∧ s.assigned = true ∧ s.timeHhmm = h
          ∧ s.days d = true := by
  intro l
  induction l with
  | nil =>
      intro i
      simp [scan]
  | cons a l ih =>
      intro i
      unfold scan
      rw [List.exists_mem_cons_iff]
      split
      · next hskip =>
        rw [ih]
        simp only [Bool.or_eq_true, Bool.not_eq_true'] at hskip
        refine ⟨.inr, fun hor => hor.resolve_left fun hm => ?_⟩
        rcases hskip with hf | hf
        · exact absurd hm.1 (by simp [hf])
        · exact absurd hm.2.1 (by simp [hf])
      · split
        · next htime =>
          rw [ih]
          exact ⟨.inr, fun hor => hor.resolve_left fun hm => htime hm.2.2.1⟩
        · split
          · next hday =>
            rw [ih]
            refine ⟨.inr, fun hor => hor.resolve_left fun hm => ?_⟩
            simp [hm.2.2.2] at hday
          · next h₁ h₂ h₃ =>
            simp only [Bool.or_eq_true, Bool.not_eq_true', not_or,
              Bool.not_eq_false, ne_eq, not_not] at h₁ h₂ h₃
            simp [h₁, h₂, h₃]

/-- A due time is one at which the scan finds an entry. -/
theorem due_iff_scan (table : List LocalSchedule) (tm : Tm) :
    Due table tm ↔
      (scan (hhmm tm.hour tm.min) (tmWdayToIsoIndex tm.wday) 0 table).isSome
        = true :=
  scan_isSome.symm

-- ======================================================= one wake-up

/-- A wake-up at which nothing is due changes nothing. -/
theorem checkAndFire_idle {tm : Tm} {r : Runner} (h : ¬ Due r.schedules tm) :
    checkAndFire tm r = (r, none) := by
  have hscan : scan (hhmm tm.hour tm.min) (tmWdayToIsoIndex tm.wday) 0
      r.schedules = none := by
    rw [due_iff_scan] at h
    simpa using h
  unfold checkAndFire
  dsimp only
  split
  · rfl
  · rw [hscan]

/-- A wake-up that shows the remembered pair changes nothing. -/
theorem checkAndFire_repeat {tm : Tm} {r : Runner} (h : r.memory = tm.key) :
    checkAndFire tm r = (r, none) := by
  unfold checkAndFire
  dsimp only
  simp only [Runner.memory, Tm.key, Prod.mk.injEq] at h
  rw [if_pos ⟨h.1.symm, h.2.symm⟩]

/-- A due wake-up that shows another pair remembers it and makes the
callback for the entry the scan finds. -/
theorem checkAndFire_fresh {tm : Tm} {r : Runner} (hdue : Due r.schedules tm)
    (hmem : r.memory ≠ tm.key) (hon : r.onFeed = true) :
    ∃ i s, scan (hhmm tm.hour tm.min) (tmWdayToIsoIndex tm.wday) 0 r.schedules
        = some (i, s)
      ∧ checkAndFire tm r
        = ({ r with lastFiredHhmm := hhmm tm.hour tm.min
                    lastFiredWday := (tmWdayToIsoIndex tm.wday).val },
            some { entry := i, grams := s.grams,
                   source := cstr "schedule", force := false }) := by
  rw [due_iff_scan, Option.isSome_iff_exists] at hdue
  obtain ⟨⟨i, s⟩, hscan⟩ := hdue
  refine ⟨i, s, hscan, ?_⟩
  unfold checkAndFire
  dsimp only
  rw [if_neg, hscan]
  · simp [hon]
  · intro he
    exact hmem (by simp [Runner.memory, Tm.key, he.1, he.2])

-- ================================================================ runs

section Runs

variable {ι : Type*} (tm : ι → Tm) (table : ι → List LocalSchedule)

/-- A run of wake-ups: at each one the table then loaded is checked, and
the callbacks made are collected with the wake-up they were made at. The
callback returns before the next wake-up. -/
def runChecks : Runner → List ι → List (ι × FeedCall)
  | _, [] => []
  | r, x :: xs =>
      match checkAndFire (tm x) { r with schedules := table x } with
      | (r', some c) => (x, c) :: runChecks r' xs
      | (r', none) => runChecks r' xs

/-- What one wake-up of a run does: the memory becomes the slot after
the wake-up's observation, and the wake-up is listed exactly when it
gets through the recall filter. -/
theorem runChecks_cons {r : Runner} (hon : r.onFeed = true) (x : ι)
    (xs : List ι) :
    ∃ r', r'.onFeed = true
      ∧ some r'.memory
        = Recall.slot (fun i => observed (table i) (tm i)) (some r.memory) [x]
      ∧ (runChecks tm table r (x :: xs)).map Prod.fst
        = Recall.pass (fun i => observed (table i) (tm i)) (some r.memory) [x]
          ++ (runChecks tm table r' xs).map Prod.fst := by
  by_cases hdue : Due (table x) (tm x)
  · have hobs : observed (table x) (tm x) = some (tm x).key := by
      rw [observed, if_pos hdue]
    by_cases hmem : r.memory = (tm x).key
    · refine ⟨{ r with schedules := table x }, hon, ?_, ?_⟩
      · simp [Recall.slot, hobs, ← hmem, Runner.memory]
      · rw [runChecks, checkAndFire_repeat (by exact hmem)]
        simp [Recall.pass, hobs, hmem]
    · obtain ⟨i, s, -, hc⟩ :=
        checkAndFire_fresh (r := { r with schedules := table x }) hdue hmem hon
      refine ⟨{ r with schedules := table x
                       lastFiredHhmm := hhmm (tm x).hour (tm x).min
                       lastFiredWday := (tmWdayToIsoIndex (tm x).wday).val },
        hon, ?_, ?_⟩
      · simp [Recall.slot, hobs, Runner.memory, Tm.key]
      · rw [runChecks, hc]
        simp [Recall.pass, hobs, hmem]
  · have hobs : observed (table x) (tm x) = none := by
      rw [observed, if_neg hdue]
    refine ⟨{ r with schedules := table x }, hon, ?_, ?_⟩
    · simp [Recall.slot, hobs, Runner.memory]
    · rw [runChecks, checkAndFire_idle (by exact hdue)]
      simp [Recall.pass, hobs]

/-- The refinement: the wake-ups that make a callback are those that get
through the one-slot recall filter over the pairs of due times. -/
theorem runChecks_times {r : Runner} (hon : r.onFeed = true) (xs : List ι) :
    (runChecks tm table r xs).map Prod.fst
      = Recall.pass (fun i => observed (table i) (tm i)) (some r.memory)
          xs := by
  induction xs generalizing r with
  | nil => rfl
  | cons x xs ih =>
      obtain ⟨r', hon', hslot, hlist⟩ :=
        runChecks_cons tm table hon x xs
      rw [hlist, ih hon', hslot]
      exact (Recall.pass_append [x] xs).symm

variable {tm table}

/-- Every callback of a run is the one its own wake-up's scan asks
for. -/
theorem mem_runChecks {r : Runner} {xs : List ι} {x : ι} {c : FeedCall}
    (h : (x, c) ∈ runChecks tm table r xs) :
    ∃ s, scan (hhmm (tm x).hour (tm x).min) (tmWdayToIsoIndex (tm x).wday) 0
        (table x) = some (c.entry, s)
      ∧ c.grams = s.grams ∧ c.source = cstr "schedule" ∧ c.force = false := by
  induction xs generalizing r with
  | nil => cases h
  | cons y xs ih =>
      unfold runChecks at h
      split at h
      · next r' c' hc =>
        rcases List.mem_cons.mp h with he | h
        · obtain ⟨rfl, rfl⟩ := Prod.mk.inj he
          unfold checkAndFire at hc
          dsimp only at hc
          split at hc
          · simp at hc
          · split at hc
            · simp at hc
            · next i s hs =>
              simp only [Prod.mk.injEq] at hc
              obtain ⟨-, hc⟩ := hc
              split at hc
              · obtain rfl := Option.some.inj hc
                exact ⟨s, hs, rfl, rfl, rfl⟩
              · cases hc
        · exact ih h
      · exact ih h

end Runs

-- ==================================================== keys as functions

/-- Two digits determine the number. -/
theorem digit_inj {m n : Nat} (hm : m < 10) (hn : n < 10)
    (h : digit m = digit n) : m = n := by
  have := congrArg UInt8.toNat h
  simp only [digit, UInt8.toNat_ofNat', Nat.reducePow] at this
  omega

/-- The `HH:mm` string determines hour and minute. -/
theorem hhmm_inj {h h' : Fin 24} {m m' : Fin 60} :
    hhmm h m = hhmm h' m' ↔ h = h' ∧ m = m' := by
  refine ⟨fun he => ?_, fun ⟨rfl, rfl⟩ => rfl⟩
  simp only [hhmm, List.cons.injEq, true_and, and_true] at he
  obtain ⟨h₁, h₂, h₃, h₄⟩ := he
  have e₁ := digit_inj (by omega) (by omega) h₁
  have e₂ := digit_inj (by omega) (by omega) h₂
  have e₃ := digit_inj (by omega) (by omega) h₃
  have e₄ := digit_inj (by omega) (by omega) h₄
  exact ⟨Fin.ext (by omega), Fin.ext (by omega)⟩

/-- The weekday conversion is one to one. -/
theorem tmWdayToIsoIndex_inj {w w' : Fin 7} :
    tmWdayToIsoIndex w = tmWdayToIsoIndex w' ↔ w = w' := by
  revert w w'
  decide

/-- Two local times show the same pair exactly when they agree in hour,
minute and weekday. -/
theorem Tm.key_eq_iff {a b : Tm} :
    a.key = b.key ↔ a.hour = b.hour ∧ a.min = b.min ∧ a.wday = b.wday := by
  simp only [Tm.key, Prod.mk.injEq, hhmm_inj, Int.natCast_inj, Fin.val_inj,
    tmWdayToIsoIndex_inj, and_assoc]

/-- No local time shows the pair the memory starts with. -/
theorem boot_memory_ne (tm : Tm) : some Runner.boot.memory ≠ some tm.key := by
  intro h
  have := congrArg Prod.snd (Option.some.inj h)
  simp only [Runner.memory, Runner.boot, Tm.key] at this
  omega

/-- The pair observed at a due time. -/
theorem observed_eq_some {table : List LocalSchedule} {tm : Tm} {k : Key} :
    observed table tm = some k ↔ Due table tm ∧ tm.key = k := by
  unfold observed
  split <;> simp_all

/-- Nothing is observed when nothing is due. -/
theorem observed_eq_none {table : List LocalSchedule} {tm : Tm} :
    observed table tm = none ↔ ¬ Due table tm := by
  unfold observed
  split <;> simp_all

end SitNChow
