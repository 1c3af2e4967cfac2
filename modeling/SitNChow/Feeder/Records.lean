/-
What a feed workflow records (main.c), against what `dispenser_run`
returned to it.

# One workflow alone

`wfEvents` lists what one `do_feed_workflow` records, oldest first, from
the answers of its sensors and the worlds its steps find; what other
tasks do in between is in those worlds. It runs the same `wfStep` as the
system.

# Whose records are true

`do_feed_workflow` does not look at what `dispenser_run` returns, and
`handle_pending_command` passes any number on. `feed_records_true_iff`
says for which triggers and sensors the records are true all the same:
positive grams, which `dispenser_run` never rejects, or a workflow that
aborts before it.
-/
import SitNChow.Feeder.Workflow

namespace SitNChow

open Kit

variable {cfg : Config} {t : FeedTask} {o : Sensed} {w w' : Wf}
  {pre : List Event}

-- ================================================ one workflow's events

/-- The events of a workflow, oldest first: one step in each of the
worlds, until it returns. Every sensor is read at most once, so one
`Sensed` answers for all. -/
def wfEvents (cfg : Config) (t : FeedTask) (o : Sensed) :
    List World → Wf → List Event
  | [], _ => []
  | x :: rest, w =>
      let r := wfStep cfg t o w { x with trace := [] }
      r.2.trace ++
        match r.1 with
        | some w' => wfEvents cfg t o rest w'
        | none => []

/-- The workflow the guard lets in. -/
def Trigger.wf (tr : Trigger) : Wf :=
  { trig := tr, sittingConfirmed := false, foodLow := false, pc := .beep }

/-- The records of a list of events are true: a feed is recorded, and
its completion notified, after a `dispenser_run` of the same arguments
that returned `ESP_OK`; where `dispenser_run` rejected its grams, no feed
is recorded. -/
structure RecordsTrue (events : List Event) : Prop where
  logged : ∀ before t tr foodLow after,
    events = before ++ .feedEvent t tr foodLow :: after →
    .dispensed t tr .ok ∈ before
  notified : ∀ before t body after,
    events = before ++ .notification t "🐾 Feeding complete" body :: after →
    ∃ tr, .dispensed t tr .ok ∈ before
  rejected : ∀ t tr, .dispensed t tr .invalidArg ∈ events →
    (∀ u tr' foodLow, .feedEvent u tr' foodLow ∉ events)
      ∧ ∀ u body, .notification u "🐾 Feeding complete" body ∉ events

/-- A step's event, then those of the rest. -/
theorem wfEvents_cons (x : World) (rest : List World) (w : Wf) :
    wfEvents cfg t o (x :: rest) w = (wfEvent cfg t w).toList ++
      match (wfStep cfg t o w { x with trace := [] }).1 with
      | some w' => wfEvents cfg t o rest w'
      | none => [] := by
  have htrace := wfStep_trace cfg t o w { x with trace := [] }
  rw [List.append_nil] at htrace
  simp only [wfEvents, htrace]

-- ======================================================= positive grams

/-- Past the return of `dispenser_run`. -/
def WfPc.pastRun : WfPc → Bool
  | .ultrasonic | .logEvent | .notifyDone | .notifyLow | .lowFlag => true
  | _ => false

/-- What holds along a workflow with positive grams, `pre` being what it
has recorded: `dispenser_run` has not failed, and past its return that
return is in the record. -/
structure Fed (t : FeedTask) (w : Wf) (pre : List Event) : Prop where
  positive : 0 < w.trig.grams
  ok : ∀ err, w.pc = .dispense (.done err) → err = .ok
  past : w.pc.pastRun = true → .dispensed t w.trig .ok ∈ pre

theorem DispenserPc.ramp_ne_done (left : Nat) (err : EspErr) :
    DispenserPc.ramp left ≠ .done err := by
  cases left <;> simp [ramp]

/-- With positive grams `dispenser_run` returns `ESP_OK`. -/
theorem dispenserStep_ok {mcfg : MotorConfig} {grams : Int}
    (hg : 0 < grams) {d : DispenserPc} {m : Motor} {err : EspErr}
    (hd : ∀ err, d ≠ .done err)
    (h : (dispenserStep mcfg grams d m).1 = .done err) : err = .ok := by
  cases d with
  | check =>
      simp only [dispenserStep, if_neg (Int.not_le.mpr hg)] at h
      cases h
  | rotate =>
      simp only [dispenserStep] at h
      split at h
      · cases h
      · exact absurd h (DispenserPc.ramp_ne_done _ _)
  | pulseLow left => exact absurd h (DispenserPc.ramp_ne_done _ _)
  | disable =>
      cases h
      rfl
  | done err => exact absurd rfl (hd err)
  | _ => cases h

/-- A step keeps it, with the step's event recorded. -/
theorem Fed.step (h : Fed t w pre) {x : World}
    (hstep : (wfStep cfg t o w x).1 = some w') :
    Fed t w' (pre ++ (wfEvent cfg t w).toList) := by
  have hkept := wfStep_trig hstep
  obtain ⟨trig, sittingConfirmed, foodLow, pc⟩ := w
  have hpast : pc.pastRun = true →
      .dispensed t trig .ok ∈ pre ++ (wfEvent cfg t ⟨trig, sittingConfirmed,
        foodLow, pc⟩).toList :=
    fun hp => List.mem_append_left _ (h.past hp)
  refine ⟨by rw [hkept]; exact h.positive, ?_, ?_⟩
  · intro err herr
    cases pc with
    | dispense d =>
        cases d with
        | done err =>
            obtain rfl := Option.some.inj hstep
            cases herr
        | _ =>
            obtain rfl := Option.some.inj hstep
            exact dispenserStep_ok h.positive (by simp) (WfPc.dispense.inj herr)
    | release => cases hstep
    | beep | tofWait | notifyDone =>
        obtain rfl := Option.some.inj hstep
        dsimp only at herr
        split at herr <;> cases herr
    | _ =>
        obtain rfl := Option.some.inj hstep
        cases herr
  · intro hp
    rw [hkept]
    cases pc with
    | dispense d =>
        cases d with
        | done err =>
            obtain rfl := h.ok err rfl
            simp [wfEvent]
        | _ =>
            obtain rfl := Option.some.inj hstep
            cases hp
    | release => cases hstep
    | beep | tofWait =>
        obtain rfl := Option.some.inj hstep
        dsimp only at hp
        split at hp <;> cases hp
    | ultrasonic | logEvent | notifyDone | notifyLow | lowFlag => exact hpast rfl
    | _ =>
        obtain rfl := Option.some.inj hstep
        cases hp

/-- What an event says is true after `pre`: a record stands after the
return of `dispenser_run`, and that return was `ESP_OK`. -/
def Event.Backed (pre : List Event) : Event → Prop
  | .feedEvent t tr _ => .dispensed t tr .ok ∈ pre
  | .notification t _ _ => ∃ tr, .dispensed t tr .ok ∈ pre
  | .dispensed _ _ err => err = .ok
  | _ => True

theorem Fed.event (h : Fed t w pre) {e : Event}
    (he : wfEvent cfg t w = some e) : e.Backed pre := by
  obtain ⟨trig, sittingConfirmed, foodLow, pc⟩ := w
  cases pc with
  | dispense d =>
      cases d with
      | done err =>
          obtain rfl := Option.some.inj he
          exact h.ok err rfl
      | _ => cases he
  | logEvent =>
      obtain rfl := Option.some.inj he
      exact h.past rfl
  | notifyDone | notifyLow =>
      simp only [wfEvent] at he
      split at he
      · obtain rfl := Option.some.inj he
        exact ⟨trig, h.past rfl⟩
      · cases he
  | run | lowFlag | release =>
      obtain rfl := Option.some.inj he
      trivial
  | _ => cases he

/-- Every event of a workflow with positive grams is backed by those
before it. -/
theorem Fed.backed {e : Event} {before after : List Event}
    (worlds : List World) (h : Fed t w pre)
    (hev : wfEvents cfg t o worlds w = before ++ e :: after) :
    e.Backed (pre ++ before) := by
  induction worlds generalizing w pre before with
  | nil => simp [wfEvents] at hev
  | cons x rest ih =>
      rw [wfEvents_cons] at hev
      have hlater : ∀ {before'},
          (match (wfStep cfg t o w { x with trace := [] }).1 with
            | some w' => wfEvents cfg t o rest w'
            | none => []) = before' ++ e :: after →
          e.Backed (pre ++ (wfEvent cfg t w).toList ++ before') := by
        intro before' hrest
        split at hrest
        · next w' hr => exact ih (h.step hr) hrest
        · simp at hrest
      cases hwe : wfEvent cfg t w with
      | none =>
          rw [hwe] at hev hlater
          simpa using hlater hev
      | some e₀ =>
          rw [hwe] at hev hlater
          cases before with
          | nil =>
              obtain ⟨rfl, -⟩ := List.cons.inj hev
              simpa using h.event hwe
          | cons e₁ before' =>
              obtain ⟨rfl, hrest⟩ := List.cons.inj hev
              simpa using hlater hrest

/-- Positive grams: every record is true. -/
theorem recordsTrue_of_positive {tr : Trigger} (hg : 0 < tr.grams)
    (worlds : List World) : RecordsTrue (wfEvents cfg t o worlds tr.wf) := by
  have hfed : Fed t tr.wf [] := ⟨hg, fun _ h => (by cases h), fun h => (by cases h)⟩
  refine ⟨?_, ?_, ?_⟩
  · intro before u tr' foodLow after hev
    exact hfed.backed worlds hev
  · intro before u body after hev
    exact hfed.backed worlds hev
  · intro u tr' hmem
    obtain ⟨before, after, hev⟩ := List.append_of_mem hmem
    have : EspErr.invalidArg = .ok := hfed.backed worlds hev
    cases this

-- ============================================================== aborts

/-- A workflow that is not forced and meets no pet records its release
alone. -/
theorem wfEvents_abort (cfg : Config) (t : FeedTask) {tr : Trigger}
    (hforce : tr.force = false) (hpet : o.petDetected = false)
    (worlds : List World) :
    ∀ e ∈ wfEvents cfg t o worlds tr.wf, e = .released t := by
  have hrelease : ∀ worlds, ∀ e ∈ wfEvents cfg t o worlds
      { tr.wf with pc := .release }, e = .released t := by
    intro worlds
    cases worlds <;> simp [wfEvents, wfStep]
  have hwait : ∀ worlds, ∀ e ∈ wfEvents cfg t o worlds
      { tr.wf with pc := .tofWait }, e = .released t := by
    intro worlds
    cases worlds with
    | nil => simp [wfEvents]
    | cons x rest => simpa [wfEvents_cons, wfStep, wfEvent, hpet] using hrelease rest
  cases worlds with
  | nil => simp [wfEvents]
  | cons x rest =>
      simpa [wfEvents_cons, wfStep, wfEvent, Trigger.wf, hforce] using hwait rest

-- ==================================================== rejected grams

/-- From the `dispenser_run` call with grams it rejects, the workflow
comes to its record. -/
theorem wfEvents_rejected (cfg : Config) (t : FeedTask) (o : Sensed) {w : Wf}
    (hrun : w.pc = .run) (hg : w.trig.grams ≤ 0) (x : World) :
    ∃ foodLow, wfEvents cfg t o (List.replicate 5 x) w
      = [.dispenserRun t w.trig, .dispensed t w.trig .invalidArg,
          .feedEvent t w.trig foodLow] := by
  obtain ⟨trig, sittingConfirmed, foodLow, pc⟩ := w
  obtain rfl : pc = .run := hrun
  simp only [List.replicate, wfEvents_cons, wfEvents, wfStep, wfEvent,
    dispenserStep, if_pos (show trig.grams ≤ 0 from hg)]
  exact ⟨_, rfl⟩

/-- A trigger that is forced or meets a pet comes to `dispenser_run`. -/
theorem wfEvents_reaches_run (cfg : Config) (t : FeedTask) {tr : Trigger}
    (h : tr.force = true ∨ o.petDetected = true) (x : World) :
    ∃ n w, w.pc = .run ∧ w.trig = tr ∧ ∀ worlds,
      wfEvents cfg t o (List.replicate n x ++ worlds) tr.wf
        = wfEvents cfg t o worlds w := by
  cases hforce : tr.force with
  | true =>
      refine ⟨1, { tr.wf with pc := .run }, rfl, rfl, fun worlds => ?_⟩
      simp [wfEvents_cons, wfStep, wfEvent, Trigger.wf, hforce]
  | false =>
      have hpet : o.petDetected = true := by simpa [hforce] using h
      refine ⟨7, { tr.wf with sittingConfirmed := o.sitting, pc := .run }, rfl,
        rfl, fun worlds => ?_⟩
      simp [List.replicate, wfEvents_cons, wfStep, wfEvent, Trigger.wf, hforce,
        hpet]

/-- The records of a workflow are true, in whatever worlds it runs, for
exactly the triggers with positive grams and those that abort for want
of a pet. -/
theorem feed_records_true_iff (cfg : Config) (t : FeedTask) (tr : Trigger)
    (o : Sensed) :
    (∀ worlds, RecordsTrue (wfEvents cfg t o worlds tr.wf))
      ↔ 0 < tr.grams ∨ (tr.force = false ∧ o.petDetected = false) := by
  constructor
  · intro htrue
    by_contra hne
    obtain ⟨hg, habort⟩ := not_or.mp hne
    have hgoes : tr.force = true ∨ o.petDetected = true := by
      cases hf : tr.force with
      | true => exact .inl rfl
      | false =>
          cases hp : o.petDetected with
          | true => exact .inr rfl
          | false => exact absurd ⟨hf, hp⟩ habort
    -- in any world at all it records a feed that was rejected
    obtain ⟨n, w, hrun, rfl, hreach⟩ :=
      wfEvents_reaches_run cfg t hgoes State.init.world
    obtain ⟨foodLow, hev⟩ :=
      wfEvents_rejected cfg t o hrun (Int.not_lt.mp hg) State.init.world
    have hrec := htrue
      (List.replicate n State.init.world ++ List.replicate 5 State.init.world)
    rw [hreach, hev] at hrec
    exact (hrec.rejected t w.trig (by simp)).1 t w.trig foodLow (by simp)
  · rintro (hg | ⟨hforce, hpet⟩) worlds
    · exact recordsTrue_of_positive hg worlds
    · have honly := wfEvents_abort cfg t hforce hpet worlds
      refine ⟨?_, ?_, ?_⟩
      · intro before u tr' foodLow after hev
        rw [hev] at honly
        cases honly _ List.mem_append_cons_self
      · intro before u body after hev
        rw [hev] at honly
        cases honly _ List.mem_append_cons_self
      · intro u tr' hmem
        cases honly _ hmem

/-- The grams `dispenser_run` has rejected. -/
def State.rejectedGrams (s : State) : List Int :=
  s.world.trace.filterMap fun
    | .dispensed _ tr .invalidArg => some tr.grams
    | _ => none

/-- The grams recorded as fed. -/
def State.fedGrams (s : State) : List Int :=
  s.world.trace.filterMap fun
    | .feedEvent _ tr _ => some tr.grams
    | _ => none

/-- A run with a rejection whose records are true has recorded no
feed. -/
theorem RecordsTrue.fedGrams_nil {s : State}
    (h : RecordsTrue s.world.trace.reverse) (hrej : s.rejectedGrams ≠ []) :
    s.fedGrams = [] := by
  obtain ⟨g, hg⟩ := List.exists_mem_of_ne_nil _ hrej
  obtain ⟨e, he, heq⟩ := List.mem_filterMap.mp hg
  split at heq
  · next u tr =>
    have hnone := (h.rejected u tr (List.mem_reverse.mpr he)).1
    refine List.filterMap_eq_nil_iff.mpr fun e' he' => ?_
    split
    · next u' tr' foodLow =>
      exact absurd (List.mem_reverse.mpr he') (hnone u' tr' foodLow)
    · rfl
  · cases heq

/-- A quick feed of minus five grams. -/
def rejectedRun : List Action :=
  [.appWrite (quickFeed (-5)), .get true, .delete true, .attempt .command]
    ++ List.replicate 8 (.feed .command ⟨true, true, 5⟩)

/-- `dispenser_run` rejects it, and the feed is recorded all the same:
the records of the run are not true. -/
theorem rejected_feed_recorded :
    ∃ s, (feeder .default).run State.init rejectedRun = some s
      ∧ s.rejectedGrams = [-5] ∧ s.fedGrams = [-5]
      ∧ ¬ RecordsTrue s.world.trace.reverse := by
  obtain ⟨s, hs⟩ :
      ∃ s, (feeder .default).run State.init rejectedRun = some s := ⟨_, rfl⟩
  have hgrams : ((feeder .default).run State.init rejectedRun).map
      (fun s => (s.rejectedGrams, s.fedGrams)) = some ([-5], [-5]) := by
    decide +kernel
  rw [hs] at hgrams
  obtain ⟨hrej, hfed⟩ := Prod.mk.inj (Option.some.inj hgrams)
  refine ⟨s, hs, hrej, hfed, fun h => ?_⟩
  have hnil := h.fedGrams_nil (by rw [hrej]; simp)
  rw [hfed] at hnil
  cases hnil

end SitNChow
