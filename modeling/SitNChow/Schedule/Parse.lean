/-
Loading the schedule table (schedule_runner.c): `parse_schedules`, which
fills `s_schedules` in place from a `userSchedules` snapshot, and
`fetch_schedules`, which calls it when the request succeeded.

# The loop and the list

The loop writes each entry into the slot at `count` and leaves it there
when a later check fails, so a slot is overwritten by the next entry
until one is kept. `parse` says what that amounts to, entry by entry:
the first 32 accepted entries in document order. `parseEntries_live` is
the refinement, and `schedules_are_last_snapshot` carries it over any
sequence of fetches.

# From the snapshot to the feed

`snapshot_feed` composes the table with `check_and_fire`: right after a
fetch, a wake-up feeds the first accepted entry whose `time` is the
current `HH:mm` and whose `days` hold a number with the current ISO
weekday as its integer part.
-/
import Mathlib.Data.List.Find
import Mathlib.Data.List.Induction
import SitNChow.Schedule.Runner

namespace SitNChow

open Kit

-- ============================================================ the table

/-- `MAX_SCHEDULES`. -/
def maxSchedules : Nat := 32

/-- `s_schedules` and `s_schedule_count` (inside `parse_schedules`, the
array and the local `count`). -/
structure Table where
  slots : Vector LocalSchedule maxSchedules
  count : Nat
  count_le : count ≤ maxSchedules

/-- `s_schedules[0 .. s_schedule_count)`. -/
def Table.live (t : Table) : List LocalSchedule := t.slots.toList.take t.count

/-- `memset(s, 0, sizeof(*s))`. -/
def LocalSchedule.zero : LocalSchedule where
  id := []
  timeHhmm := []
  days := fun _ => false
  grams := 0
  enabled := false
  assigned := false

/-- The table before the first fetch. -/
def Table.boot : Table where
  slots := Vector.replicate maxSchedules .zero
  count := 0
  count_le := Nat.zero_le _

-- ====================================================== parse_schedules

/-- One item of the `days` array: a number whose integer part is 1 to 7
sets its flag. -/
def markDay (days : Fin 7 → Bool) (d : CJson) : Fin 7 → Bool :=
  match d with
  | .number valuedouble =>
      let day := CJson.toInt valuedouble
      if 1 ≤ day ∧ day ≤ 7 then
        fun i => if (i.val : Int) = day - 1 then true else days i
      else days
  | _ => days

/-- The loop body on one entry: what it leaves in the slot, and whether
it reaches `count++`. -/
def fillSlot (deviceId name : CString) (entry : CJson) :
    LocalSchedule × Bool :=
  let s := { LocalSchedule.zero with id := name.take 31 }
  let s := { s with enabled :=
    match entry.getObjectItem (cstr "enabled") with
    | none => true
    | some enabled => enabled.isTrue }
  if !s.enabled then (s, false)
  else
    match entry.getObjectItem (cstr "time") with
    | some (.string t) =>
        let s := { s with timeHhmm := t.take 5 }
        let s := { s with grams :=
          match entry.getObjectItem (cstr "grams") with
          | some (.number g) => CJson.toInt g
          | _ => 0 }
        if s.grams ≤ 0 then (s, false)
        else
          let s := { s with days :=
            match entry.getObjectItem (cstr "days") with
            | some (.array days) => days.foldl markDay s.days
            | _ => s.days }
          let s := { s with assigned :=
            match entry.getObjectItem (cstr "devices") with
            | some (.object devices) =>
                match (CJson.object devices).getObjectItem deviceId with
                | some mine => mine.isTrue
                | none => false
            | _ => s.assigned }
          if !s.assigned then (s, false) else (s, true)
    | _ => (s, false)

/-- Write the slot at `count`, and count it when it is kept. -/
def Table.put (t : Table) (h : t.count < maxSchedules)
    (s : LocalSchedule × Bool) : Table where
  slots := t.slots.set t.count s.1 h
  count := if s.2 then t.count + 1 else t.count
  count_le := by split <;> omega

/-- The loop over the snapshot's entries. -/
def parseEntries (deviceId : CString) : List (CString × CJson) → Table → Table
  | [], t => t
  | (name, entry) :: rest, t =>
      if h : t.count < maxSchedules then
        parseEntries deviceId rest (t.put h (fillSlot deviceId name entry))
      else t

/-- `s_schedule_count = 0`. -/
def Table.clear (t : Table) : Table :=
  { t with count := 0, count_le := Nat.zero_le _ }

/-- `parse_schedules(root)`. -/
def parseSchedules (deviceId : CString) (root : Option CJson) (t : Table) :
    Table :=
  match root with
  | some (.object items) => parseEntries deviceId items t.clear
  | _ => t.clear

/-- What a `firebase_get` call returns: ESP_OK or not, and `*out_json`. -/
structure GetResult where
  ok : Bool
  json : Option CJson

/-- `fetch_schedules`, with what its `firebase_get` returned. -/
def fetchSchedules (deviceId : CString) (r : GetResult) (t : Table) : Table :=
  if r.ok then parseSchedules deviceId r.json t else t

-- ================================================= entries by themselves

/-- The entry is not disabled: `enabled` is missing or true. -/
def notDisabled (entry : CJson) : Bool :=
  match entry.getObjectItem (cstr "enabled") with
  | none => true
  | some enabled => enabled.isTrue

/-- The entry's `time`, when it is a string. -/
def entryTime (entry : CJson) : Option CString :=
  match entry.getObjectItem (cstr "time") with
  | some (.string t) => some t
  | _ => none

/-- The integer part of the entry's `grams`, when it is a number. -/
def entryGrams (entry : CJson) : Option Int :=
  match entry.getObjectItem (cstr "grams") with
  | some (.number g) => some (CJson.toInt g)
  | _ => none

/-- A value that is a number with integer part `day`. -/
def CJson.hasDay (day : Nat) : CJson → Bool
  | .number valuedouble => CJson.toInt valuedouble == day
  | _ => false

/-- The entry's `days` array holds a number with integer part `day`. -/
def listsDay (day : Nat) (entry : CJson) : Bool :=
  match entry.getObjectItem (cstr "days") with
  | some (.array days) => days.any (CJson.hasDay day)
  | _ => false

/-- The entry's `devices` map takes this device to true. -/
def assignedTo (deviceId : CString) (entry : CJson) : Bool :=
  match entry.getObjectItem (cstr "devices") with
  | some (.object devices) =>
      ((CJson.object devices).getObjectItem deviceId).any CJson.isTrue
  | _ => false

/-- The entry is accepted for this device. -/
def accepted (deviceId : CString) (entry : CJson) : Bool :=
  notDisabled entry && (entryTime entry).isSome
    && (entryGrams entry).any (fun g => 0 < g) && assignedTo deviceId entry

/-- The table entry an accepted snapshot entry becomes. -/
def keptSchedule (e : CString × CJson) : LocalSchedule where
  id := e.1.take 31
  timeHhmm := ((entryTime e.2).getD []).take 5
  days := fun i => listsDay (i.val + 1) e.2
  grams := (entryGrams e.2).getD 0
  enabled := true
  assigned := true

/-- The first 32 accepted entries of a snapshot. -/
def acceptedEntries (deviceId : CString) :
    Option CJson → List (CString × CJson)
  | some (.object items) =>
      (items.filter fun e => accepted deviceId e.2).take maxSchedules
  | _ => []

/-- What the table should hold after a snapshot. -/
def parse (deviceId : CString) (root : Option CJson) : List LocalSchedule :=
  (acceptedEntries deviceId root).map keptSchedule

-- ========================================================= the refinement

/-- One item adds its own day. -/
theorem markDay_apply (days : Fin 7 → Bool) (d : CJson) (i : Fin 7) :
    markDay days d i = (days i || d.hasDay (i.val + 1)) := by
  cases d with
  | number v =>
      have hi := i.isLt
      unfold markDay CJson.hasDay
      dsimp only
      by_cases hday : CJson.toInt v = ((i.val + 1 : Nat) : Int)
      · rw [if_pos (by omega), if_pos (by omega), beq_iff_eq.mpr hday,
          Bool.or_true]
      · rw [beq_eq_false_iff_ne.mpr hday, Bool.or_false]
        split
        · exact if_neg (by omega)
        · rfl
  | _ => simp [markDay, CJson.hasDay]

/-- The loop over `days` sets the flags of the days listed. -/
theorem foldl_markDay (ds : List CJson) (days : Fin 7 → Bool) (i : Fin 7) :
    ds.foldl markDay days i = (days i || ds.any (CJson.hasDay (i.val + 1))) := by
  induction ds generalizing days with
  | nil => simp
  | cons d ds ih =>
      rw [List.foldl_cons, ih, markDay_apply, List.any_cons, Bool.or_assoc]

/-- The loop body keeps exactly the accepted entries, and a kept slot
holds what the entry says and nothing else. -/
theorem fillSlot_spec (deviceId name : CString) (entry : CJson) :
    (fillSlot deviceId name entry).2 = accepted deviceId entry
      ∧ (accepted deviceId entry = true →
        (fillSlot deviceId name entry).1 = keptSchedule (name, entry)) := by
  have henabled : (match entry.getObjectItem (cstr "enabled") with
      | none => true
      | some enabled => enabled.isTrue) = notDisabled entry := rfl
  have hdays : (match entry.getObjectItem (cstr "days") with
      | some (.array days) => days.foldl markDay fun _ => false
      | _ => fun _ => false) = fun i : Fin 7 => listsDay (i.val + 1) entry := by
    funext i
    unfold listsDay
    cases entry.getObjectItem (cstr "days") with
    | none => rfl
    | some days =>
        cases days with
        | array days => exact (foldl_markDay _ _ _).trans (Bool.false_or _)
        | _ => rfl
  have hassigned : (match entry.getObjectItem (cstr "devices") with
      | some (.object devices) =>
          match (CJson.object devices).getObjectItem deviceId with
          | some mine => mine.isTrue
          | none => false
      | _ => false) = assignedTo deviceId entry := by
    unfold assignedTo
    split
    · cases (CJson.object _).getObjectItem deviceId <;> rfl
    · rfl
  unfold fillSlot
  dsimp only [LocalSchedule.zero]
  simp only [henabled, hdays, hassigned]
  unfold accepted keptSchedule
  cases notDisabled entry with
  | false => simp
  | true =>
      -- the slot's grams are positive exactly when the entry's are
      have hgrams : (match entry.getObjectItem (cstr "grams") with
          | some (.number g) => CJson.toInt g
          | _ => 0) = (entryGrams entry).getD 0 := by
        unfold entryGrams
        split <;> rfl
      have hpos : (entryGrams entry).any (fun g => decide (0 < g))
          = decide (0 < (entryGrams entry).getD 0) := by
        cases entryGrams entry <;> simp
      rw [if_neg (by simp), hpos]
      simp only [hgrams]
      unfold entryTime
      cases entry.getObjectItem (cstr "time") with
      | none => simp
      | some time =>
          cases time with
          | string t =>
              by_cases hg : (entryGrams entry).getD 0 ≤ 0
              · simp [hg]
              · have hg' : 0 < (entryGrams entry).getD 0 := by omega
                cases assignedTo deviceId entry <;> simp [hg, hg']
          | _ => simp

/-- What a slot written adds to the live table. -/
theorem Table.put_live (t : Table) (h : t.count < maxSchedules)
    (s : LocalSchedule × Bool) :
    (t.put h s).live = if s.2 then t.live ++ [s.1] else t.live := by
  have hlen : t.count < t.slots.toList.length := by simpa using h
  unfold Table.live Table.put
  rw [Vector.toList_set]
  split
  · rw [List.take_succ_eq_append_getElem (by simpa using h),
      List.take_set_of_le (Nat.le_refl _)]
    simp
  · exact List.take_set_of_le (Nat.le_refl _)

theorem Table.live_length (t : Table) : t.live.length = t.count := by
  simp [Table.live, t.count_le]

/-- The loop adds the accepted entries until the table is full. -/
theorem parseEntries_live (deviceId : CString) (items : List (CString × CJson))
    (t : Table) :
    (parseEntries deviceId items t).live
      = (t.live ++ (items.filter fun e => accepted deviceId e.2).map
          keptSchedule).take maxSchedules := by
  induction items generalizing t with
  | nil =>
      have hlen := t.live_length
      have hle := t.count_le
      simp only [parseEntries, List.filter_nil, List.map_nil, List.append_nil]
      exact (List.take_of_length_le (by omega)).symm
  | cons e rest ih =>
      obtain ⟨name, entry⟩ := e
      obtain ⟨hkept, hslot⟩ := fillSlot_spec deviceId name entry
      have hlen := t.live_length
      unfold parseEntries
      split
      · rw [ih, Table.put_live, hkept]
        by_cases hacc : accepted deviceId entry = true
        · rw [if_pos hacc, hslot hacc, List.filter_cons_of_pos (by exact hacc),
            List.map_cons, List.append_assoc]
          rfl
        · rw [if_neg hacc, List.filter_cons_of_neg (by exact hacc)]
      · -- the table is full: the loop breaks, and no further entry fits
        next hfull =>
        have hle := t.count_le
        rw [List.take_append_of_le_length (by omega),
          List.take_of_length_le (by omega)]

/-- `parse_schedules` loads exactly the first 32 accepted entries. -/
theorem parseSchedules_live (deviceId : CString) (root : Option CJson)
    (t : Table) : (parseSchedules deviceId root t).live = parse deviceId root := by
  have hclear : t.clear.live = [] := by simp [Table.live, Table.clear]
  cases root with
  | none => exact hclear
  | some v =>
      cases v with
      | object items =>
          show (parseEntries deviceId items t.clear).live = _
          rw [parseEntries_live, hclear, List.nil_append, ← List.map_take]
          rfl
      | _ => exact hclear

/-- One fetch: the table of the snapshot, or the table as it was. -/
theorem fetchSchedules_live (deviceId : CString) (r : GetResult) (t : Table) :
    (fetchSchedules deviceId r t).live
      = if r.ok then parse deviceId r.json else t.live := by
  unfold fetchSchedules
  split
  · exact parseSchedules_live deviceId r.json t
  · rfl

/-- After any sequence of fetches the live table is what the snapshot of
the latest successful one parses to; with none it is the table before
them. -/
theorem schedules_are_last_snapshot (deviceId : CString) (t : Table)
    (fetches : List GetResult) :
    (fetches.foldl (fun t r => fetchSchedules deviceId r t) t).live
      = match (fetches.filter (·.ok)).getLast? with
        | some r => parse deviceId r.json
        | none => t.live := by
  induction fetches using List.reverseRecOn with
  | nil => rfl
  | append_singleton rs r ih =>
      rw [List.foldl_append, List.foldl_cons, List.foldl_nil,
        fetchSchedules_live, List.filter_append]
      by_cases hr : r.ok = true
      · simp [hr]
      · rw [if_neg hr, ih, List.filter_cons_of_neg hr, List.filter_nil,
          List.append_nil]

/-- A snapshot with one entry, for one day and some grams. -/
def oneEntry (day grams : Rat) : CJson :=
  .object [(cstr "weekly", .object [(cstr "time", .string (cstr "07:30")),
    (cstr "days", .array [.number day]), (cstr "grams", .number grams),
    (cstr "devices", .object [(cstr "SIT", .bool true)])])]

theorem int_ne_three_halves (n : Int) : (n : Rat) ≠ 3 / 2 := by
  intro h
  have hd := congrArg Rat.den h
  rw [Rat.den_intCast] at hd
  exact absurd hd (by decide +kernel)

/-- An entry for Monday and a half is loaded with its Monday flag set,
though no integer is in its `days`. -/
theorem half_day_flagged :
    (fetchSchedules (cstr "SIT") ⟨true, some (oneEntry (3 / 2) 60)⟩ .boot).live.map
        (fun s => (s.timeHhmm, (List.finRange 7).map s.days))
      = [(cstr "07:30", [true, false, false, false, false, false, false])]
    ∧ ∀ n : Int, (n : Rat) ≠ 3 / 2 :=
  ⟨by decide +kernel, int_ne_three_halves⟩

-- =================================================== snapshot to feed

/-- The ISO number of the weekday, 1 for Monday to 7 for Sunday. -/
def isoWeekday (tm : Tm) : Nat := if tm.wday.val = 0 then 7 else tm.wday.val

/-- The entry's `time` is the current `HH:mm`, and its `days` hold the
current weekday. -/
def dueEntry (tm : Tm) (e : CString × CJson) : Bool :=
  entryTime e.2 == some (hhmm tm.hour tm.min) && listsDay (isoWeekday tm) e.2

/-- Every time string of the snapshot has five bytes, as `HH:mm` has. -/
def FiveByteTimes : Option CJson → Prop
  | some (.object items) =>
      ∀ e ∈ items, ∀ t, entryTime e.2 = some t → t.length = 5
  | _ => True

/-- The day flag checked is that of the ISO weekday. -/
theorem tmWdayToIsoIndex_succ (tm : Tm) :
    (tmWdayToIsoIndex tm.wday).val + 1 = isoWeekday tm := by
  obtain ⟨date, hour, min, wday⟩ := tm
  revert wday
  simp only [isoWeekday]
  decide

/-- The scan finds the first entry that matches. -/
theorem scan_find {h : CString} {d : Fin 7} (l : List LocalSchedule) (i : Nat) :
    (scan h d i l).map Prod.snd
      = l.find? fun s =>
          s.enabled && s.assigned && s.timeHhmm == h && s.days d := by
  induction l generalizing i with
  | nil => rfl
  | cons s rest ih =>
      unfold scan
      rw [List.find?_cons]
      by_cases hon : (s.enabled && s.assigned) = true
      · have hoff : (!s.enabled || !s.assigned) = false := by
          rw [← Bool.not_and, hon]
          rfl
        rw [hoff, hon, if_neg Bool.false_ne_true]
        by_cases htime : s.timeHhmm = h
        · rw [if_neg (not_not.mpr htime), beq_iff_eq.mpr htime]
          cases hday : s.days d with
          | true => simp
          | false => simpa using ih (i + 1)
        · rw [if_pos htime, beq_eq_false_iff_ne.mpr htime, ih]
          rfl
      · have hoff : (!s.enabled || !s.assigned) = true := by
          rw [← Bool.not_and, Bool.eq_false_of_not_eq_true hon]
          rfl
        rw [hoff, Bool.eq_false_of_not_eq_true hon, if_pos rfl, ih]
        rfl

/-- A loaded entry matches exactly when the snapshot's entry is due. -/
theorem keptSchedule_matches (tm : Tm) (e : CString × CJson)
    (htime : ∃ t, entryTime e.2 = some t ∧ t.length = 5) :
    ((keptSchedule e).enabled && (keptSchedule e).assigned
        && (keptSchedule e).timeHhmm == hhmm tm.hour tm.min
        && (keptSchedule e).days (tmWdayToIsoIndex tm.wday))
      = dueEntry tm e := by
  obtain ⟨t, ht, hlen⟩ := htime
  have hcut : (keptSchedule e).timeHhmm = t := by
    show ((entryTime e.2).getD []).take 5 = t
    rw [ht, Option.getD_some, List.take_of_length_le (by omega)]
  have hday : (keptSchedule e).days (tmWdayToIsoIndex tm.wday)
      = listsDay (isoWeekday tm) e.2 := by
    show listsDay ((tmWdayToIsoIndex tm.wday).val + 1) e.2 = _
    rw [tmWdayToIsoIndex_succ]
  rw [hcut, hday]
  unfold dueEntry
  rw [ht]
  rfl

/-- An accepted entry has a time string. -/
theorem acceptedEntries_time {deviceId : CString} {root : Option CJson}
    (htimes : FiveByteTimes root) {e : CString × CJson}
    (he : e ∈ acceptedEntries deviceId root) :
    ∃ t, entryTime e.2 = some t ∧ t.length = 5 := by
  unfold acceptedEntries at he
  split at he
  · next items =>
    obtain ⟨hmem, hacc⟩ := List.mem_filter.mp (List.mem_of_mem_take he)
    simp only [accepted, Bool.and_eq_true] at hacc
    obtain ⟨t, ht⟩ := Option.isSome_iff_exists.mp hacc.1.1.2
    exact ⟨t, ht, htimes e hmem t ht⟩
  · cases he

/-- What a wake-up's scan finds in the table just loaded: the first
accepted entry that is due. -/
theorem scan_parse (deviceId : CString) {root : Option CJson}
    (htimes : FiveByteTimes root) (tm : Tm) :
    (scan (hhmm tm.hour tm.min) (tmWdayToIsoIndex tm.wday) 0
        (parse deviceId root)).map Prod.snd
      = ((acceptedEntries deviceId root).find? (dueEntry tm)).map
          keptSchedule := by
  rw [scan_find, parse, List.find?_map]
  congr 1
  refine List.find?_congr fun e he => ?_
  exact keptSchedule_matches tm e (acceptedEntries_time htimes he)

/-- A wake-up right after a snapshot was loaded, showing a pair other
than the one last fired: it feeds exactly when an accepted entry is due,
with the first such entry's grams, and remembers the pair exactly when
it feeds. -/
theorem snapshot_feed (deviceId : CString) (root : Option CJson) (t : Table)
    (r : Runner) (tm : Tm) (htimes : FiveByteTimes root)
    (hload : r.schedules = (fetchSchedules deviceId ⟨true, root⟩ t).live)
    (hon : r.onFeed = true) (hfresh : r.memory ≠ tm.key) :
    ((checkAndFire tm r).2.isSome = true
        ↔ ∃ e ∈ acceptedEntries deviceId root, dueEntry tm e = true)
      ∧ (checkAndFire tm r).2.map (fun c => (c.grams, c.source, c.force))
        = ((acceptedEntries deviceId root).find? (dueEntry tm)).map
            (fun e => ((entryGrams e.2).getD 0, cstr "schedule", false))
      ∧ ((checkAndFire tm r).1.memory = tm.key
        ↔ (checkAndFire tm r).2.isSome = true) := by
  rw [fetchSchedules_live, if_pos rfl] at hload
  have hscan := scan_parse deviceId htimes tm
  rw [← hload] at hscan
  have hfind : (∃ e ∈ acceptedEntries deviceId root, dueEntry tm e = true)
      ↔ ((acceptedEntries deviceId root).find? (dueEntry tm)).isSome = true :=
    List.find?_isSome.symm
  rw [hfind]
  by_cases hdue : Due r.schedules tm
  · obtain ⟨i, s, hs, hc⟩ := checkAndFire_fresh hdue hfresh hon
    rw [hs] at hscan
    obtain ⟨e, he, hkept⟩ := Option.map_eq_some_iff.mp hscan.symm
    rw [hc, he, ← show keptSchedule e = s from hkept]
    exact ⟨by simp, rfl, by simp [Runner.memory, Tm.key]⟩
  · rw [due_iff_scan, Option.not_isSome_iff_eq_none] at hdue
    rw [hdue] at hscan
    have hnone := Option.map_eq_none_iff.mp hscan.symm
    have hidle : checkAndFire tm r = (r, none) :=
      checkAndFire_idle (by rw [due_iff_scan, hdue]; simp)
    rw [hidle, hnone]
    exact ⟨by simp, rfl, by simpa using hfresh⟩

/-- The runner of device SIT, booted, with a snapshot loaded. -/
def loaded (root : CJson) : Runner :=
  { Runner.boot with schedules :=
      (fetchSchedules (cstr "SIT") ⟨true, some root⟩ .boot).live }

/-- Monday, 07:30: minute 6210 of the count. -/
def monday0730 : Tm := .ofMinute 6210

/-- A Monday entry is fed on Monday. -/
theorem snapshot_feed_monday :
    ((checkAndFire monday0730 (loaded (oneEntry 1 60))).2.isSome = true
        ↔ ∃ e ∈ acceptedEntries (cstr "SIT") (some (oneEntry 1 60)),
            dueEntry monday0730 e = true)
      ∧ (checkAndFire monday0730 (loaded (oneEntry 1 60))).2.map
          (fun c => (c.grams, c.source, c.force))
        = ((acceptedEntries (cstr "SIT") (some (oneEntry 1 60))).find?
            (dueEntry monday0730)).map
            (fun e => ((entryGrams e.2).getD 0, cstr "schedule", false))
      ∧ ((checkAndFire monday0730 (loaded (oneEntry 1 60))).1.memory
          = monday0730.key
        ↔ (checkAndFire monday0730 (loaded (oneEntry 1 60))).2.isSome
          = true) := by
  refine snapshot_feed (cstr "SIT") (some (oneEntry 1 60)) .boot _ _ ?_ rfl rfl
    (by decide)
  intro e he t ht
  obtain rfl := List.mem_singleton.mp he
  cases ht
  rfl

/-- An entry for Monday and a half is fed on Monday, and one for half a
gram is not fed on its day. -/
theorem fraction_fed :
    ((checkAndFire monday0730 (loaded (oneEntry (3 / 2) 60))).2.map
        (fun c => c.grams) = some 60 ∧ ∀ n : Int, (n : Rat) ≠ 3 / 2)
      ∧ ((checkAndFire monday0730 (loaded (oneEntry 1 (1 / 2)))).2.isNone = true
        ∧ (0 : Rat) < 1 / 2) :=
  ⟨⟨by decide +kernel, int_ne_three_halves⟩, by decide +kernel,
    by decide +kernel⟩

end SitNChow
