/-
The sitting detector (main.c): `sitting_detector_run` polls the result
the ML service writes to `final_output/<deviceId>` and returns whether
it confirms that the pet sits.

# The run

One call runs against a database that the service goes on writing to: a
baseline read of `updatedAt`, then polls of `updatedAt` until it has
passed the baseline, then one read of `posture`. The writes are atomic
and their `updatedAt` increases; each of the detector's reads succeeds
or fails, and writes may fall between any two of them.

# What the baseline is for

A baseline that was read bounds every result stored before the call, so
the result that passes it is fresh: `sitting_of_fresh_write`. A baseline
that could not be read is zero, and the detector then triggers on any
value, which its log line says: a stored result that is positive
confirms a pet that sat some other day.
-/
import Mathlib.Algebra.Order.Ring.Unbundled.Rat
import SitNChow.CJson
import SitNChow.Kit.Machine

namespace SitNChow

open Kit

-- =========================================================== the result

/-- What one write of the ML service stores. -/
structure MlResult where
  updatedAt : Rat
  posture : CJson

/-- The posture that confirms. -/
def MlResult.IsSitting (r : MlResult) : Prop :=
  r.posture = .string (cstr "sitting")

/-- What a GET of `final_output/<deviceId>/updatedAt` brings: nothing
when it fails or nothing is stored. -/
def getUpdatedAt (ok : Bool) (db : Option MlResult) : Option CJson :=
  if ok then db.map fun r => .number r.updatedAt else none

/-- The same for `final_output/<deviceId>/posture`. -/
def getPosture (ok : Bool) (db : Option MlResult) : Option CJson :=
  if ok then db.map (·.posture) else none

-- ========================================================= the detector

/-- Where the call is: at the GET of the baseline, of a poll, of the
posture, or returned. -/
inductive SittingPc where
  | baseline
  | poll
  | posture
  | done (sitting : Bool)
deriving DecidableEq

/-- One call of `sitting_detector_run` and the database it reads. Ghost
state: the writes made since the call began, newest first, and whether
the baseline's GET succeeded. -/
structure SittingRun where
  db : Option MlResult
  baselineUpdatedAt : Rat
  elapsedMs : Nat
  pc : SittingPc
  writes : List MlResult
  baselineRead : Bool

/-- `POLL_INTERVAL_MS`. -/
def pollIntervalMs : Nat := 500

/-- The head of the polling loop: another wait and poll, or the timeout's
return. `elapsed_ms` is a `uint32_t`. -/
def SittingRun.loop (timeoutMs : Nat) (s : SittingRun) : SittingRun :=
  if s.elapsedMs < timeoutMs then
    { s with elapsedMs := (s.elapsedMs + pollIntervalMs) % UInt32.size, pc := .poll }
  else { s with pc := .done false }

/-- The call's next GET and what it does with the answer. -/
def SittingRun.get (timeoutMs : Nat) (ok : Bool) (s : SittingRun) :
    Option SittingRun :=
  match s.pc with
  | .baseline =>
      let baseline := match getUpdatedAt ok s.db with
        | some (.number valuedouble) => valuedouble
        | _ => 0
      some ({ s with baselineUpdatedAt := baseline
                     baselineRead := ok }.loop timeoutMs)
  | .poll =>
      match getUpdatedAt ok s.db with
      | some (.number valuedouble) =>
          if valuedouble ≤ s.baselineUpdatedAt then some (s.loop timeoutMs)
          else some { s with pc := .posture }
      | _ => some (s.loop timeoutMs)
  | .posture =>
      match getPosture ok s.db with
      | some (.string valuestring) =>
          some { s with pc := .done (decide (valuestring = cstr "sitting")) }
      | _ => some { s with pc := .done false }
  | .done _ => none

/-- The service writes a result, later than the one stored. -/
def SittingRun.write (r : MlResult) (s : SittingRun) : Option SittingRun :=
  if ∀ old ∈ s.db, old.updatedAt < r.updatedAt then
    some { s with db := some r, writes := r :: s.writes }
  else none

/-- The steps of the call and of the service. -/
inductive SittingAction where
  | get (ok : Bool)
  | write (r : MlResult)

/-- One call of `sitting_detector_run(timeout_ms)`, begun with `stored`
in the database. -/
def sittingDetector (timeoutMs : Nat) (stored : Option MlResult) :
    Machine SittingRun SittingAction where
  init := { db := stored, baselineUpdatedAt := 0, elapsedMs := 0
            pc := .baseline, writes := [], baselineRead := false }
  apply
    | .get ok, s => s.get timeoutMs ok
    | .write r, s => s.write r

section Detector

variable {timeoutMs : Nat} {stored : Option MlResult} {s s' : SittingRun}
  {r : MlResult}

/-- The loop's head changes the place and the time alone. -/
theorem SittingRun.loop_keeps (s : SittingRun) (timeoutMs : Nat) :
    (s.loop timeoutMs).db = s.db ∧ (s.loop timeoutMs).writes = s.writes
      ∧ (s.loop timeoutMs).baselineUpdatedAt = s.baselineUpdatedAt
      ∧ (s.loop timeoutMs).baselineRead = s.baselineRead
      ∧ ((s.loop timeoutMs).pc = .poll
        ∨ (s.loop timeoutMs).pc = .done false) := by
  unfold SittingRun.loop
  split
  · exact ⟨rfl, rfl, rfl, rfl, .inl rfl⟩
  · exact ⟨rfl, rfl, rfl, rfl, .inr rfl⟩

/-- A result that was stored before the call or written since. -/
def SittingRun.Seen (stored : Option MlResult) (s : SittingRun)
    (r : MlResult) : Prop :=
  stored = some r ∨ r ∈ s.writes

/-- The invariant: the database holds the stored result or the last
write; a baseline that was read is no less than the stored `updatedAt`;
and what has passed the baseline, or has confirmed, is what the database
held then. -/
structure Tracked (stored : Option MlResult) (s : SittingRun) : Prop where
  db : ∀ r, s.db = some r → s.Seen stored r
  grows : ∀ old, stored = some old →
    ∃ r, s.db = some r ∧ old.updatedAt ≤ r.updatedAt
  bound : s.pc ≠ .baseline → s.baselineRead = true → ∀ old, stored = some old →
    old.updatedAt ≤ s.baselineUpdatedAt
  unread : s.baselineRead = false → s.baselineUpdatedAt = 0
  passed : s.pc = .posture →
    ∃ r, s.db = some r ∧ s.baselineUpdatedAt < r.updatedAt
  confirmed : s.pc = .done true →
    ∃ r, s.Seen stored r ∧ r.IsSitting ∧ s.baselineUpdatedAt < r.updatedAt

theorem tracked_init :
    Tracked stored (sittingDetector timeoutMs stored).init where
  db := fun _ h => .inl h
  grows := fun old h => ⟨old, h, le_refl _⟩
  bound := fun h => absurd rfl h
  unread := fun _ => rfl
  passed := fun h => nomatch h
  confirmed := fun h => nomatch h

theorem Tracked.write (h : Tracked stored s) (happ : s.write r = some s') :
    Tracked stored s' := by
  unfold SittingRun.write at happ
  split at happ
  · next hlater =>
    obtain rfl := Option.some.inj happ
    refine ⟨fun r' hr => ?_, fun old hold => ?_, h.bound, h.unread, fun hp => ?_,
      fun hd => ?_⟩
    · obtain rfl := Option.some.inj hr
      exact .inr List.mem_cons_self
    · obtain ⟨r₀, hr₀, hle⟩ := h.grows old hold
      exact ⟨r, rfl, le_trans hle (le_of_lt (hlater r₀ hr₀))⟩
    · obtain ⟨r₀, hr₀, hlt⟩ := h.passed hp
      exact ⟨r, rfl, lt_trans hlt (hlater r₀ hr₀)⟩
    · obtain ⟨r₀, hseen, hrest⟩ := h.confirmed hd
      exact ⟨r₀, hseen.imp_right (List.mem_cons_of_mem _), hrest⟩
  · cases happ

/-- The loop's head, once the baseline is in place. -/
theorem Tracked.loop (h : Tracked stored s)
    (hbound : s.baselineRead = true → ∀ old, stored = some old →
      old.updatedAt ≤ s.baselineUpdatedAt) :
    Tracked stored (s.loop timeoutMs) := by
  obtain ⟨hdb, hwrites, hbase, hread, hpc⟩ := s.loop_keeps timeoutMs
  refine ⟨?_, ?_, ?_, ?_, fun hp => ?_, fun hd => ?_⟩
  · intro r hr
    rw [hdb] at hr
    rcases h.db r hr with hs | hw
    · exact .inl hs
    · exact .inr (by rw [hwrites]; exact hw)
  · rw [hdb]
    exact h.grows
  · rw [hbase, hread]
    exact fun _ => hbound
  · rw [hbase, hread]
    exact h.unread
  · rcases hpc with hpc | hpc <;> rw [hpc] at hp <;> cases hp
  · rcases hpc with hpc | hpc <;> rw [hpc] at hd <;> cases hd

theorem getUpdatedAt_eq {ok : Bool} {db : Option MlResult} {v : Rat}
    (h : getUpdatedAt ok db = some (.number v)) :
    ∃ r, db = some r ∧ r.updatedAt = v := by
  unfold getUpdatedAt at h
  split at h
  · obtain ⟨r, hr, hv⟩ := Option.map_eq_some_iff.mp h
    exact ⟨r, hr, CJson.number.inj hv⟩
  · cases h

theorem getPosture_eq {ok : Bool} {db : Option MlResult} {v : CJson}
    (h : getPosture ok db = some v) : ∃ r, db = some r ∧ r.posture = v := by
  unfold getPosture at h
  split at h
  · exact Option.map_eq_some_iff.mp h
  · cases h

/-- The baseline's GET. -/
theorem Tracked.baseline (h : Tracked stored s) {ok : Bool} {baseline : Rat}
    (hpc : s.pc = .baseline)
    (hbase : baseline = match getUpdatedAt ok s.db with
      | some (.number valuedouble) => valuedouble
      | _ => 0) :
    Tracked stored ({ s with baselineUpdatedAt := baseline
                             baselineRead := ok }.loop timeoutMs) := by
  refine Tracked.loop ⟨h.db, h.grows, fun hp => absurd hpc hp, ?_, ?_, ?_⟩ ?_
  · intro hok
    obtain rfl : ok = false := hok
    exact hbase
  · intro hp
    exact absurd (hpc.symm.trans hp) (by simp)
  · intro hd
    exact absurd (hpc.symm.trans hd) (by simp)
  · -- what was read is no less than what was stored
    intro hok old hold
    obtain rfl : ok = true := hok
    obtain ⟨r, hr, hle⟩ := h.grows old hold
    rw [hr] at hbase
    show old.updatedAt ≤ baseline
    rw [hbase]
    exact hle

theorem Tracked.get (h : Tracked stored s) {ok : Bool}
    (happ : s.get timeoutMs ok = some s') : Tracked stored s' := by
  unfold SittingRun.get at happ
  split at happ
  · -- the baseline: zero, or what the database holds
    next hpc =>
    obtain rfl := Option.some.inj happ
    exact h.baseline hpc rfl
  · next hpc =>
    have hbound := h.bound (by rw [hpc]; simp)
    split at happ
    · next v hv =>
      split at happ
      · obtain rfl := Option.some.inj happ
        exact h.loop hbound
      · next hlt =>
        obtain rfl := Option.some.inj happ
        refine ⟨h.db, h.grows, fun _ => hbound, h.unread, fun _ => ?_,
          fun hd => (nomatch hd)⟩
        obtain ⟨r, hr, rfl⟩ := getUpdatedAt_eq hv
        exact ⟨r, hr, not_le.mp hlt⟩
    · obtain rfl := Option.some.inj happ
      exact h.loop hbound
  · next hpc =>
    have hbound := h.bound (by rw [hpc]; simp)
    obtain ⟨r, hr, hlt⟩ := h.passed hpc
    split at happ
    · next v hv =>
      obtain rfl := Option.some.inj happ
      refine ⟨h.db, h.grows, fun _ => hbound, h.unread, fun hp => (nomatch hp),
        fun hd => ⟨r, h.db r hr, ?_, hlt⟩⟩
      obtain ⟨r', hr', hposture⟩ := getPosture_eq hv
      obtain rfl : r = r' := Option.some.inj (hr.symm.trans hr')
      have hsitting : v = cstr "sitting" := by
        simpa using SittingPc.done.inj hd
      rw [MlResult.IsSitting, hposture, hsitting]
    · obtain rfl := Option.some.inj happ
      exact ⟨h.db, h.grows, fun _ => hbound, h.unread, fun hp => (nomatch hp),
        fun hd => by cases hd⟩
  · cases happ

theorem tracked_reachable (hr : (sittingDetector timeoutMs stored).Reachable s) :
    Tracked stored s :=
  hr.invariant tracked_init fun _ a _ h _ happ => by
    cases a with
    | get ok => exact h.get happ
    | write r => exact h.write happ

/-- `sitting_detector_run` returns true only on a result it has seen that
confirms: one written since the call began when the baseline was read,
and a positive one when it was not. -/
theorem sitting_of_fresh_write
    (hr : (sittingDetector timeoutMs stored).Reachable s)
    (htrue : s.pc = .done true) :
    (s.baselineRead = true → ∃ r ∈ s.writes, r.IsSitting)
      ∧ (s.baselineRead = false →
        ∃ r, (stored = some r ∨ r ∈ s.writes) ∧ r.IsSitting
          ∧ 0 < r.updatedAt) := by
  have h := tracked_reachable hr
  obtain ⟨r, hseen, hsits, hlt⟩ := h.confirmed htrue
  refine ⟨fun hread => ?_, fun hread => ?_⟩
  · rcases hseen with hs | hw
    · -- a stored result is no later than the baseline
      have hle := h.bound (by rw [htrue]; simp) hread r hs
      exact absurd hlt (not_lt.mpr hle)
    · exact ⟨r, hw, hsits⟩
  · rw [h.unread hread] at hlt
    exact ⟨r, hseen, hsits, hlt⟩

end Detector

/-- A result of an earlier feed. -/
def earlierSitting : MlResult :=
  { updatedAt := 5, posture := .string (cstr "sitting") }

/-- The call to its return: the baseline is read, then a write
confirms. -/
def freshRun : List SittingAction :=
  [.get true, .get true,
    .write { updatedAt := 6, posture := .string (cstr "sitting") },
    .get true, .get true]

/-- The rule on that call. -/
theorem sitting_of_fresh_write_run :
    ∃ s, (sittingDetector 180000 (some earlierSitting)).run
        (sittingDetector 180000 (some earlierSitting)).init freshRun = some s
      ∧ ∃ r ∈ s.writes, r.IsSitting := by
  have hfacts : ((sittingDetector 180000 (some earlierSitting)).run
      (sittingDetector 180000 (some earlierSitting)).init freshRun).map
        (fun s => (s.pc, s.baselineRead)) = some (.done true, true) := by
    decide +kernel
  obtain ⟨s, hs, hproj⟩ := Option.map_eq_some_iff.mp hfacts
  obtain ⟨hpc, hread⟩ := Prod.mk.inj hproj
  exact ⟨s, hs, (sitting_of_fresh_write (Machine.reachable_of_run hs) hpc).1
    hread⟩

/-- With the baseline's GET failed and nothing written since the call
began, the earlier result confirms. -/
theorem stored_sitting_confirms :
    ∃ s, (sittingDetector 180000 (some earlierSitting)).run
        (sittingDetector 180000 (some earlierSitting)).init
        [.get false, .get true, .get true] = some s
      ∧ s.pc = .done true ∧ s.writes = [] := by
  have hfacts : ((sittingDetector 180000 (some earlierSitting)).run
      (sittingDetector 180000 (some earlierSitting)).init
      [.get false, .get true, .get true]).map
        (fun s => (s.pc, s.writes.length)) = some (.done true, 0) := by
    decide +kernel
  obtain ⟨s, hs, hproj⟩ := Option.map_eq_some_iff.mp hfacts
  obtain ⟨hpc, hnone⟩ := Prod.mk.inj hproj
  exact ⟨s, hs, hpc, List.eq_nil_of_length_eq_zero hnone⟩

end SitNChow
