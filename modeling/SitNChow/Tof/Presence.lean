/-
The presence wait (tof.c, `tof_wait_for_presence`): a deadline in 32-bit
ticks, and a counter of consecutive readings below the threshold.

# Turns

A turn of the loop is the tick count its condition reads and what the
sensor then has: nothing new, or a distance. Ticks and readings are the
environment's, so a call is a function of the turns made so far.

# The deadline

`deadline` is a sum modulo 2^32 and the loop compares with `<`. The sum
wraps when the call begins within the timeout of the counter's wrap, and
the loop is then left at once: `no_early_giveUp_iff` is the exact
condition. `schedule_task` compares a difference, which has no such case.

# The counter

`presence_iff_run` says what the counter is for: the call returns true at
the poll that completes a run of consecutive readings below the
threshold.
-/
import SitNChow.Kit.Streak

namespace SitNChow.Tof

open Kit.Streak

-- ============================================================== the loop

/-- One turn: `xTaskGetTickCount()` in the loop's condition, and the new
distance, if `tmf8701_is_data_ready`. -/
structure Turn where
  tick : UInt32
  reading : Option UInt16

/-- The call so far: `confirm_count`, and what it has returned. -/
structure Wait where
  confirmCount : Nat
  result : Option Bool
deriving DecidableEq

/-- `dist_mm > 0 && dist_mm < threshold_mm`. -/
def subThreshold (thresholdMm distMm : UInt16) : Bool :=
  0 < distMm && distMm < thresholdMm

/-- A turn of the loop, unless the call has returned. -/
def Wait.turn (samplesToConfirm : Nat) (thresholdMm : UInt16)
    (deadline : UInt32) (w : Wait) (u : Turn) : Wait :=
  match w.result with
  | some _ => w
  | none =>
      if u.tick < deadline then
        match u.reading with
        | some distMm =>
            if subThreshold thresholdMm distMm then
              { confirmCount := w.confirmCount + 1
                result := if w.confirmCount + 1 ≥ samplesToConfirm then some true
                  else none }
            else { w with confirmCount := 0 }
        | none => w
      else { w with result := some false }

/-- `tof_wait_for_presence`, called at the tick count `entry`, after some
turns; `ready` is `s_ready && s_tof != NULL`. -/
def tofWaitForPresence (ready : Bool) (samplesToConfirm : Nat)
    (thresholdMm : UInt16) (entry timeoutTicks : UInt32) (turns : List Turn) :
    Wait :=
  if ready then
    turns.foldl (Wait.turn samplesToConfirm thresholdMm (entry + timeoutTicks))
      { confirmCount := 0, result := none }
  else { confirmCount := 0, result := some false }

/-- What the call has returned after some turns, with the sensor ready. -/
abbrev presenceAfter (samplesToConfirm : Nat) (thresholdMm : UInt16)
    (entry timeoutTicks : UInt32) (turns : List Turn) : Option Bool :=
  (tofWaitForPresence true samplesToConfirm thresholdMm entry timeoutTicks
    turns).result

section Wait

variable {samplesToConfirm : Nat} {thresholdMm : UInt16}
  {entry timeoutTicks : UInt32} {turns : List Turn} {u : Turn}

theorem tofWait_concat :
    tofWaitForPresence true samplesToConfirm thresholdMm entry timeoutTicks
        (turns ++ [u])
      = (tofWaitForPresence true samplesToConfirm thresholdMm entry timeoutTicks
          turns).turn samplesToConfirm thresholdMm (entry + timeoutTicks) u := by
  simp [tofWaitForPresence]

-- ============================================================= the turns

/-- A call that has returned stays as it is. -/
theorem Wait.turn_returned {w : Wait} {b : Bool} (deadline : UInt32)
    (hw : w.result = some b) :
    w.turn samplesToConfirm thresholdMm deadline u = w := by
  simp only [Wait.turn, hw]

variable {w : Wait} {deadline : UInt32} {d : UInt16}

/-- A poll that is not ready changes nothing. -/
theorem Wait.turn_notReady (hw : w.result = none) (hbefore : u.tick < deadline)
    (hr : u.reading = none) :
    w.turn samplesToConfirm thresholdMm deadline u = w := by
  simp only [Wait.turn, hw, if_pos hbefore, hr]

/-- A reading below the threshold is counted; enough of them end the
call. -/
theorem Wait.turn_below (hw : w.result = none) (hbefore : u.tick < deadline)
    (hr : u.reading = some d) (hd : subThreshold thresholdMm d = true) :
    w.turn samplesToConfirm thresholdMm deadline u =
      { confirmCount := w.confirmCount + 1
        result := if w.confirmCount + 1 ≥ samplesToConfirm then some true
          else none } := by
  simp only [Wait.turn, hw, if_pos hbefore, hr, if_pos hd]

/-- Any other reading starts the count anew. -/
theorem Wait.turn_above (hw : w.result = none) (hbefore : u.tick < deadline)
    (hr : u.reading = some d) (hd : subThreshold thresholdMm d = false) :
    w.turn samplesToConfirm thresholdMm deadline u
      = { w with confirmCount := 0 } := by
  simp only [Wait.turn, hw, if_pos hbefore, hr, hd, Bool.false_eq_true, if_false]

/-- A turn that is late gives up. -/
theorem Wait.turn_late (hw : w.result = none) (hlate : ¬u.tick < deadline) :
    w.turn samplesToConfirm thresholdMm deadline u
      = { w with result := some false } := by
  simp only [Wait.turn, hw, if_neg hlate]

-- ========================================================== the deadline

/-- Giving up is done at a tick count that is not below the deadline. -/
theorem giveUp_tick (hw : w.result = none)
    (h : (w.turn samplesToConfirm thresholdMm deadline u).result = some false) :
    ¬ u.tick < deadline := by
  intro hlt
  cases hr : u.reading with
  | none =>
      rw [Wait.turn_notReady hw hlt hr, hw] at h
      cases h
  | some d =>
      cases hd : subThreshold thresholdMm d with
      | true =>
          rw [Wait.turn_below hw hlt hr hd] at h
          dsimp only at h
          split at h <;> cases h
      | false =>
          rw [Wait.turn_above hw hlt hr hd] at h
          cases hw.symm.trans h

/-- Without a wrap of the deadline, a tick count that is not below it is
the timeout or more after the entry. -/
theorem elapsed_of_deadline (hsum : entry.toNat + timeoutTicks.toNat < UInt32.size)
    {tick : UInt32} (h : ¬ tick < entry + timeoutTicks) :
    timeoutTicks ≤ tick - entry := by
  rw [UInt32.lt_iff_toNat_lt, UInt32.toNat_add] at h
  rw [UInt32.le_iff_toNat_le, UInt32.toNat_sub]
  have := tick.toNat_lt
  have := entry.toNat_lt
  simp only [UInt32.size] at hsum
  omega

/-- With a wrap the deadline is not above the tick count at entry. -/
theorem deadline_le_entry (hsum : UInt32.size ≤ entry.toNat + timeoutTicks.toNat) :
    ¬ entry < entry + timeoutTicks := by
  rw [UInt32.lt_iff_toNat_lt, UInt32.toNat_add]
  have := timeoutTicks.toNat_lt
  have := entry.toNat_lt
  simp only [UInt32.size] at hsum
  omega

/-- The call gives up only when the timeout has elapsed, whatever the
sensor does, exactly for the entries and timeouts whose sum is below
2^32. -/
theorem no_early_giveUp_iff (samplesToConfirm : Nat) (thresholdMm : UInt16)
    (entry timeoutTicks : UInt32) :
    (∀ turns u,
        presenceAfter samplesToConfirm thresholdMm entry timeoutTicks turns
          = none →
        presenceAfter samplesToConfirm thresholdMm entry timeoutTicks
          (turns ++ [u]) = some false →
        timeoutTicks ≤ u.tick - entry)
      ↔ entry.toNat + timeoutTicks.toNat < UInt32.size := by
  constructor
  · intro h
    by_contra hsum
    have hsum := Nat.le_of_not_lt hsum
    -- the first turn is made at once
    have hout : presenceAfter samplesToConfirm thresholdMm entry timeoutTicks
        ([] ++ [⟨entry, none⟩]) = some false := by
      rw [presenceAfter, tofWait_concat]
      exact congrArg Wait.result
        (Wait.turn_late (u := ⟨entry, none⟩) rfl (deadline_le_entry hsum))
    have hle := h [] ⟨entry, none⟩ rfl hout
    have hle : timeoutTicks ≤ entry - entry := hle
    rw [UInt32.sub_self, UInt32.le_iff_toNat_le] at hle
    have := entry.toNat_lt
    simp only [UInt32.size, UInt32.toNat_zero] at hsum hle
    omega
  · intro hsum turns u hnone hfalse
    rw [presenceAfter, tofWait_concat] at hfalse
    exact elapsed_of_deadline hsum (giveUp_tick hnone hfalse)

/-- Ten seconds before the wrap, a wait of a hundred seconds is given up
in its first turn. -/
theorem early_giveUp :
    presenceAfter 5 400 (0 - 10000) 100000 [⟨0 - 10000, none⟩] = some false
      ∧ ¬ (100000 : UInt32) ≤ (0 - 10000) - (0 - 10000) := by
  decide

-- =========================================================== the counter

/-- The distances of the ready polls. -/
def readings (turns : List Turn) : List UInt16 := turns.filterMap Turn.reading

/-- Before the deadline the counter is the streak of the readings, and the
call has returned, with true, when a run is complete. -/
structure Counted (samplesToConfirm : Nat) (thresholdMm : UInt16)
    (turns : List Turn) (w : Wait) : Prop where
  waiting : w.result = none →
    w.confirmCount = streak (subThreshold thresholdMm) (readings turns)
      ∧ ¬ HasRun (subThreshold thresholdMm) samplesToConfirm (readings turns)
  returned : ∀ b, w.result = some b → b = true
    ∧ HasRun (subThreshold thresholdMm) samplesToConfirm (readings turns)

theorem counted_nil (hpos : 1 ≤ samplesToConfirm) :
    Counted samplesToConfirm thresholdMm []
      { confirmCount := 0, result := none } where
  waiting := fun _ => ⟨rfl, by
    rw [hasRun_iff]
    rintro ⟨ys, hys, hle⟩
    rw [show ys = [] from List.prefix_nil.mp hys] at hle
    exact absurd hpos (Nat.not_le_of_lt (Nat.lt_succ_of_le hle))⟩
  returned := fun _ h => nomatch h

/-- A call that has returned has had its run, whatever comes after. -/
theorem Counted.later {b : Bool} (h : Counted samplesToConfirm thresholdMm turns w)
    (hw : w.result = some b) {turns' : List Turn}
    (hmore : readings turns <+: readings turns') :
    Counted samplesToConfirm thresholdMm turns' w := by
  refine ⟨fun hn => (by cases hw.symm.trans hn), fun b' hb' => ?_⟩
  obtain ⟨hb, v, hv, hlen, hall⟩ := h.returned b' hb'
  exact ⟨hb, v, hv.trans hmore.isInfix, hlen, hall⟩

theorem Counted.turn (h : Counted samplesToConfirm thresholdMm turns w)
    (hbefore : u.tick < deadline) :
    Counted samplesToConfirm thresholdMm (turns ++ [u])
      (w.turn samplesToConfirm thresholdMm deadline u) := by
  have hread : readings (turns ++ [u]) = readings turns ++ u.reading.toList := by
    cases hr : u.reading <;> simp [readings, hr]
  cases hw : w.result with
  | some b =>
      rw [Wait.turn_returned deadline hw]
      exact h.later hw (hread ▸ List.prefix_append _ _)
  | none =>
      obtain ⟨hcount, hno⟩ := h.waiting hw
      cases hr : u.reading with
      | none =>
          rw [hr, Option.toList_none, List.append_nil] at hread
          rw [Wait.turn_notReady hw hbefore hr]
          exact ⟨hread ▸ h.waiting, hread ▸ h.returned⟩
      | some d =>
          rw [hr, Option.toList_some] at hread
          cases hd : subThreshold thresholdMm d with
          | true =>
              have hrun : HasRun (subThreshold thresholdMm) samplesToConfirm
                  (readings (turns ++ [u])) ↔ samplesToConfirm ≤ w.confirmCount + 1 := by
                rw [hread, hasRun_concat_good hd, hcount]
                exact or_iff_right hno
              rw [Wait.turn_below hw hbefore hr hd]
              by_cases hfull : w.confirmCount + 1 ≥ samplesToConfirm
              · rw [if_pos hfull]
                exact ⟨fun hn => (by cases hn),
                  fun b hb => ⟨(Option.some.inj hb).symm, hrun.mpr hfull⟩⟩
              · rw [if_neg hfull]
                refine ⟨fun _ => ⟨?_, fun h => hfull (hrun.mp h)⟩,
                  fun b hb => (by cases hb)⟩
                rw [hread, streak_concat_good _ hd, hcount]
          | false =>
              rw [Wait.turn_above hw hbefore hr hd]
              refine ⟨fun _ => ?_, fun b hb => (by cases hw.symm.trans hb)⟩
              rw [hread, hasRun_concat_bad hd, streak_append_cons hd]
              exact ⟨rfl, hno⟩

theorem counted_of_before (hpos : 1 ≤ samplesToConfirm)
    (hbefore : ∀ u ∈ turns, u.tick < entry + timeoutTicks) :
    Counted samplesToConfirm thresholdMm turns
      (tofWaitForPresence true samplesToConfirm thresholdMm entry timeoutTicks
        turns) := by
  induction turns using List.reverseRecOn with
  | nil => exact counted_nil hpos
  | append_singleton turns u ih =>
      rw [tofWait_concat]
      exact (ih fun v hv => hbefore v (List.mem_append_left _ hv)).turn
        (hbefore u (by simp))

/-- Before the deadline the call returns true when a run is complete, and
nothing otherwise. -/
theorem presenceAfter_eq (thresholdMm : UInt16) (hpos : 1 ≤ samplesToConfirm)
    (hbefore : ∀ u ∈ turns, u.tick < entry + timeoutTicks) :
    (HasRun (subThreshold thresholdMm) samplesToConfirm (readings turns)
        ∧ presenceAfter samplesToConfirm thresholdMm entry timeoutTicks turns
          = some true)
      ∨ (¬ HasRun (subThreshold thresholdMm) samplesToConfirm (readings turns)
        ∧ presenceAfter samplesToConfirm thresholdMm entry timeoutTicks turns
          = none) := by
  have h : Counted samplesToConfirm thresholdMm turns _ :=
    counted_of_before hpos hbefore
  cases hr : presenceAfter samplesToConfirm thresholdMm entry timeoutTicks
      turns with
  | none => exact .inr ⟨(h.waiting hr).2, rfl⟩
  | some b =>
      obtain ⟨rfl, hrun⟩ := h.returned b hr
      exact .inl ⟨hrun, rfl⟩

theorem presenceAfter_iff (hpos : 1 ≤ samplesToConfirm)
    (hbefore : ∀ u ∈ turns, u.tick < entry + timeoutTicks) :
    presenceAfter samplesToConfirm thresholdMm entry timeoutTicks turns
        = some true
      ↔ HasRun (subThreshold thresholdMm) samplesToConfirm (readings turns) := by
  rcases presenceAfter_eq thresholdMm hpos hbefore with
    ⟨hrun, hr⟩ | ⟨hno, hr⟩
  · exact ⟨fun _ => hrun, fun _ => hr⟩
  · exact ⟨fun h => (nomatch hr.symm.trans h), fun hrun => absurd hrun hno⟩

/-- Before the deadline the call depends on the readings alone. -/
theorem presenceAfter_congr {turns' : List Turn} (hpos : 1 ≤ samplesToConfirm)
    (hbefore : ∀ u ∈ turns, u.tick < entry + timeoutTicks)
    (hbefore' : ∀ u ∈ turns', u.tick < entry + timeoutTicks)
    (hread : readings turns = readings turns') :
    presenceAfter samplesToConfirm thresholdMm entry timeoutTicks turns
      = presenceAfter samplesToConfirm thresholdMm entry timeoutTicks turns' := by
  rcases presenceAfter_eq thresholdMm hpos hbefore with ⟨hrun, hr⟩ | ⟨hno, hr⟩ <;>
    rcases presenceAfter_eq thresholdMm hpos hbefore' with
      ⟨hrun', hr'⟩ | ⟨hno', hr'⟩
  · rw [hr, hr']
  · exact absurd (hread ▸ hrun) hno'
  · exact absurd (hread ▸ hrun') hno
  · rw [hr, hr']

end Wait

end SitNChow.Tof
