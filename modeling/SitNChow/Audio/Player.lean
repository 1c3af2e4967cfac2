/-
The one-shot player (audio_player.c): `audio_player_start`, called by
any number of tasks, and `audio_playback_task`, which plays what they
leave in `s_samples` and `s_sample_count`.

# Grain

Each access to `s_samples`, `s_sample_count`, `s_playing` and the
semaphore is one step. A call is a program counter per task, so calls
overlap with each other and with the playback. Pointers are an abstract
type; only the intercom looks behind them.

# Pairs

A call writes the pointer and the count in two steps and the playback
reads them in two steps. `Undisturbed` is the discipline a lock would
enforce: nobody comes between two accesses that belong together.
`played_pair_passed` says that under it every pair played was passed by
one call, and `play_in_bounds` that then no read leaves the buffer.
-/
import SitNChow.Kit.Machine

namespace SitNChow

open Kit

universe u v

-- ============================================================ the code

/-- Where a task is inside `audio_player_start(samples, count)`: the next
access. `stop` is the `audio_player_stop` of a call that finds the
player busy. -/
inductive CallPc (π : Type v) where
  | idle
  | test (samples : π) (count : Nat)
  | stop (samples : π) (count : Nat)
  | setSamples (samples : π) (count : Nat)
  | setCount (samples : π) (count : Nat)
  | setPlaying
  | give
deriving DecidableEq

/-- Where `audio_playback_task` is: at the semaphore, at its two reads,
at the test of what it has read, in the loop of `play_samples` (at its
condition, at the output of sample `i`), after it. -/
inductive PlaybackPc (π : Type v) where
  | take
  | readSamples
  | readCount (samples : Option π)
  | check (samples : Option π) (count : Nat)
  | loop (samples : π) (count i : Nat)
  | out (samples : π) (count i : Nat)
  | clear
deriving DecidableEq

/-- The player: its module state, the playback task, the calling tasks,
and the pairs passed by the calls made so far (ghost). -/
structure Player (τ : Type u) (π : Type v) where
  samples : Option π
  sampleCount : Nat
  playing : Bool
  playSem : Bool
  task : PlaybackPc π
  caller : τ → CallPc π
  calls : List (π × Nat)

namespace Player

variable {τ : Type u} {π : Type v}

/-- After `audio_player_init`. -/
def init : Player τ π where
  samples := none
  sampleCount := 0
  playing := false
  playSem := false
  task := .take
  caller := fun _ => .idle
  calls := []

/-- One step of `audio_playback_task`. -/
def playback (s : Player τ π) : Option (Player τ π) :=
  match s.task with
  | .take =>
      if s.playSem then some { s with playSem := false, task := .readSamples }
      else none
  | .readSamples => some { s with task := .readCount s.samples }
  | .readCount samples => some { s with task := .check samples s.sampleCount }
  | .check samples count =>
      match samples with
      | some p =>
          if count = 0 then some { s with playing := false, task := .take }
          else some { s with task := .loop p count 0 }
      | none => some { s with playing := false, task := .take }
  | .loop p count i =>
      some { s with task :=
        if i < count ∧ s.playing = true then .out p count i else .clear }
  | .out p count i => some { s with task := .loop p count (i + 1) }
  | .clear => some { s with playing := false, task := .take }

variable [DecidableEq τ]

/-- Move one calling task. -/
def setCaller (s : Player τ π) (c : τ) (pc : CallPc π) : Player τ π :=
  { s with caller := fun d => if d = c then pc else s.caller d }

/-- A task calls `audio_player_start`. -/
def start (c : τ) (samples : π) (count : Nat) (s : Player τ π) :
    Option (Player τ π) :=
  match s.caller c with
  | .idle =>
      some ({ s with calls := (samples, count) :: s.calls }.setCaller c
        (.test samples count))
  | _ => none

/-- One step of `audio_player_start`. -/
def call (c : τ) (s : Player τ π) : Option (Player τ π) :=
  match s.caller c with
  | .idle => none
  | .test samples count =>
      some (s.setCaller c
        (if s.playing then .stop samples count else .setSamples samples count))
  | .stop samples count =>
      some ({ s with playing := false }.setCaller c (.setSamples samples count))
  | .setSamples samples count =>
      some ({ s with samples := some samples }.setCaller c
        (.setCount samples count))
  | .setCount _ count =>
      some ({ s with sampleCount := count }.setCaller c .setPlaying)
  | .setPlaying => some ({ s with playing := true }.setCaller c .give)
  | .give => some ({ s with playSem := true }.setCaller c .idle)

/-- `audio_player_stop`, called by anyone. -/
def stop (s : Player τ π) : Player τ π := { s with playing := false }

end Player

/-- The steps of the player's tasks. -/
inductive PlayerAction (τ : Type u) (π : Type v) where
  | playback
  | start (c : τ) (samples : π) (count : Nat)
  | call (c : τ)
  | stop

/-- The player as a machine. -/
def player (τ : Type u) (π : Type v) [DecidableEq τ] :
    Machine (Player τ π) (PlayerAction τ π) where
  init := Player.init
  apply
    | .playback, s => s.playback
    | .start c samples count, s => s.start c samples count
    | .call c, s => s.call c
    | .stop, s => some s.stop

-- ======================================================= the discipline

section Pairs

variable {τ : Type u} {π : Type v} {s s' : Player τ π} {c d : τ}

/-- Between the write of the pointer and the write of the count. -/
def CallPc.between : CallPc π → Bool
  | .setCount _ _ => true
  | _ => false

/-- About to write the pointer. -/
def CallPc.atSetSamples : CallPc π → Bool
  | .setSamples _ _ => true
  | _ => false

/-- Between the read of the pointer and the read of the count. -/
def PlaybackPc.between : PlaybackPc π → Bool
  | .readCount _ => true
  | _ => false

/-- The pair `play_samples` is called with. -/
def PlaybackPc.pair : PlaybackPc π → Option (π × Nat)
  | .check (some p) count => some (p, count)
  | .loop p count _ | .out p count _ => some (p, count)
  | _ => none

/-- The arguments of a call that has not written both yet. -/
def CallPc.args : CallPc π → Option (π × Nat)
  | .test p count | .stop p count | .setSamples p count
  | .setCount p count => some (p, count)
  | _ => none

/-- No call writes the pointer while another one is between its writes
or the playback between its reads, and the playback does not begin to
read while a call is between its writes. -/
def Undisturbed (s : Player τ π) : PlayerAction τ π → Prop
  | .call c =>
      (s.caller c).atSetSamples = true →
        s.task.between = false ∧ ∀ d, (s.caller d).between = false
  | .playback =>
      s.task = .readSamples → ∀ d, (s.caller d).between = false
  | _ => True

/-- The invariant of the discipline. -/
structure PairsTracked (s : Player τ π) : Prop where
  args : ∀ c a, (s.caller c).args = some a → a ∈ s.calls
  alone : ∀ c d, (s.caller c).between = true → (s.caller d).between = true →
    c = d
  writing : ∀ c p count, s.caller c = .setCount p count → s.samples = some p
  settled : (∀ c, (s.caller c).between = false) →
    ∀ p, s.samples = some p → (p, s.sampleCount) ∈ s.calls
  reading : ∀ q, s.task = .readCount q →
    q = s.samples ∧ ∀ c, (s.caller c).between = false
  played : ∀ a, s.task.pair = some a → a ∈ s.calls

theorem pairsTracked_init : PairsTracked (Player.init : Player τ π) where
  args := fun _ _ h => nomatch h
  alone := fun _ _ h => nomatch h
  writing := fun _ _ _ h => nomatch h
  settled := fun _ _ h => nomatch h
  reading := fun _ h => nomatch h
  played := fun _ h => nomatch h

/-- A playback step writes neither of the pair and leaves the callers
alone. -/
theorem Player.playback_frame (h : s.playback = some s') :
    s'.samples = s.samples ∧ s'.sampleCount = s.sampleCount
      ∧ s'.caller = s.caller ∧ s'.calls = s.calls := by
  unfold Player.playback at h
  split at h
  · split at h
    · rw [← Option.some.inj h]
      exact ⟨rfl, rfl, rfl, rfl⟩
    · cases h
  · rw [← Option.some.inj h]
    exact ⟨rfl, rfl, rfl, rfl⟩
  · rw [← Option.some.inj h]
    exact ⟨rfl, rfl, rfl, rfl⟩
  · split at h
    · split at h <;> rw [← Option.some.inj h] <;> exact ⟨rfl, rfl, rfl, rfl⟩
    · rw [← Option.some.inj h]
      exact ⟨rfl, rfl, rfl, rfl⟩
  all_goals
    rw [← Option.some.inj h]
    exact ⟨rfl, rfl, rfl, rfl⟩

/-- Where a playback step can lead: to the read of the count from the
read of the pointer, and to a pair it has just read or already had. -/
theorem Player.playback_reads (h : s.playback = some s') :
    (∀ q, s'.task = .readCount q → s.task = .readSamples ∧ q = s.samples)
      ∧ ∀ a, s'.task.pair = some a →
        s.task.pair = some a
          ∨ (s.task = .readCount (some a.1) ∧ a.2 = s.sampleCount) := by
  unfold Player.playback at h
  split at h
  · split at h
    · rw [← Option.some.inj h]
      exact ⟨fun _ hq => (nomatch hq), fun _ ha => nomatch ha⟩
    · cases h
  · next ht =>
    rw [← Option.some.inj h]
    refine ⟨fun q hq => ⟨ht, ?_⟩, fun _ ha => nomatch ha⟩
    cases hq
    rfl
  · next q ht =>
    rw [← Option.some.inj h]
    refine ⟨fun _ hq => (nomatch hq), fun a ha => .inr ?_⟩
    cases q with
    | none => cases ha
    | some p =>
        cases ha
        exact ⟨ht, rfl⟩
  · next q count ht =>
    rw [ht]
    split at h
    · split at h
      · rw [← Option.some.inj h]
        exact ⟨fun _ hq => (nomatch hq), fun _ ha => nomatch ha⟩
      · rw [← Option.some.inj h]
        exact ⟨fun _ hq => (nomatch hq), fun _ ha => .inl ha⟩
    · rw [← Option.some.inj h]
      exact ⟨fun _ hq => (nomatch hq), fun _ ha => nomatch ha⟩
  · next p count i ht =>
    rw [ht, ← Option.some.inj h]
    dsimp only
    split
    · exact ⟨fun _ hq => (nomatch hq), fun _ ha => .inl ha⟩
    · exact ⟨fun _ hq => (nomatch hq), fun _ ha => nomatch ha⟩
  · next p count i ht =>
    rw [ht, ← Option.some.inj h]
    exact ⟨fun _ hq => (nomatch hq), fun _ ha => .inl ha⟩
  · rw [← Option.some.inj h]
    exact ⟨fun _ hq => (nomatch hq), fun _ ha => nomatch ha⟩

theorem PairsTracked.playback (h : PairsTracked s)
    (hg : Undisturbed s .playback) (happ : s.playback = some s') :
    PairsTracked s' := by
  obtain ⟨hsam, hcount, hcaller, hcalls⟩ := Player.playback_frame happ
  obtain ⟨hread, hpair⟩ := Player.playback_reads happ
  refine ⟨?_, ?_, ?_, ?_, fun q hq => ?_, fun a ha => ?_⟩
  · rw [hcaller, hcalls]
    exact h.args
  · rw [hcaller]
    exact h.alone
  · rw [hcaller, hsam]
    exact h.writing
  · rw [hcaller, hsam, hcount, hcalls]
    exact h.settled
  · obtain ⟨ht, hqs⟩ := hread q hq
    rw [hcaller, hsam]
    exact ⟨hqs, hg ht⟩
  · rw [hcalls]
    obtain ⟨p, count⟩ := a
    rcases hpair (p, count) ha with hold | ⟨ht, hc⟩
    · exact h.played _ hold
    · obtain ⟨hqs, hnone⟩ := h.reading _ ht
      have hmem := h.settled hnone p hqs.symm
      rwa [← show count = s.sampleCount from hc] at hmem

variable [DecidableEq τ]

@[simp] theorem Player.setCaller_self (s : Player τ π) (c : τ)
    (pc : CallPc π) : (s.setCaller c pc).caller c = pc := by
  simp [Player.setCaller]

theorem Player.setCaller_ne (s : Player τ π) (pc : CallPc π) (h : d ≠ c) :
    (s.setCaller c pc).caller d = s.caller d := by
  simp [Player.setCaller, h]

/-- After moving one caller: what holds of its new place and of the
others' places holds of every place. -/
theorem Player.forall_setCaller {P : τ → CallPc π → Prop} {pc : CallPc π}
    (hself : P c pc) (hother : ∀ d, d ≠ c → P d (s.caller d)) (d : τ) :
    P d ((s.setCaller c pc).caller d) := by
  by_cases hd : d = c
  · rw [hd, Player.setCaller_self]
    exact hself
  · rw [Player.setCaller_ne s pc hd]
    exact hother d hd

/-- A step of a caller that touches neither of the pair keeps the
invariant. -/
theorem PairsTracked.move (h : PairsTracked s) (c : τ) (pc : CallPc π)
    (hpc : pc.between = false) (hold : (s.caller c).between = false)
    (hcalls : ∀ a ∈ s.calls, a ∈ s'.calls)
    (hargs : ∀ a, pc.args = some a → a ∈ s'.calls)
    (hsam : s'.samples = s.samples) (hcount : s'.sampleCount = s.sampleCount)
    (htask : s'.task = s.task) (hcaller : s'.caller = (s.setCaller c pc).caller) :
    PairsTracked s' := by
  have hbetween : ∀ d, (s'.caller d).between = (s.caller d).between := by
    rw [hcaller]
    exact Player.forall_setCaller
      (P := fun d call => call.between = (s.caller d).between)
      (hpc.trans hold.symm) fun _ _ => rfl
  refine ⟨?_, fun d e hd he => ?_, ?_, fun hnone p hp => ?_, fun q hq => ?_,
    fun a ha => ?_⟩
  · rw [hcaller]
    exact Player.forall_setCaller
      (P := fun _ call => ∀ a, call.args = some a → a ∈ s'.calls)
      hargs fun d _ a ha => hcalls a (h.args d a ha)
  · exact h.alone d e (by rw [← hbetween, hd]) (by rw [← hbetween, he])
  · rw [hcaller, hsam]
    refine Player.forall_setCaller
      (P := fun _ call => ∀ p n, call = .setCount p n → s.samples = some p)
      (fun p n hd => ?_) fun d _ => h.writing d
    rw [hd] at hpc
    cases hpc
  · rw [hcount]
    exact hcalls _ (h.settled (fun d => by rw [← hbetween, hnone d]) p
      (by rw [← hsam, hp]))
  · obtain ⟨hqs, hnone⟩ := h.reading q (by rw [← htask, hq])
    exact ⟨by rw [hsam, hqs], fun d => by rw [hbetween, hnone d]⟩
  · exact hcalls a (h.played a (by rw [← htask, ha]))

/-- The write of the pointer, when nobody is between two accesses. -/
theorem PairsTracked.setSamples (h : PairsTracked s) {p : π} {count : Nat}
    (hc : s.caller c = .setSamples p count)
    (htask : s.task.between = false)
    (hnone : ∀ d, (s.caller d).between = false) :
    PairsTracked ({ s with samples := some p }.setCaller c
      (.setCount p count)) := by
  -- the caller is the only one between its writes
  have honly : ∀ d, ((({ s with samples := some p }.setCaller c
      (.setCount p count)).caller d).between = true) → d = c := by
    refine Player.forall_setCaller
      (P := fun d call => call.between = true → d = c)
      (fun _ => rfl) fun d _ hd => ?_
    cases hd.symm.trans (hnone d)
  refine ⟨?_, fun d e hd he => (honly d hd).trans (honly e he).symm, ?_,
    fun hno => ?_, fun q hq => ?_, h.played⟩
  · exact Player.forall_setCaller
      (P := fun _ call => ∀ a, call.args = some a → a ∈ s.calls)
      (fun a ha => h.args c a (by rw [hc]; exact ha)) fun d _ => h.args d
  · refine Player.forall_setCaller
      (P := fun _ call => ∀ q n, call = .setCount q n → some p = some q)
      (fun q n hd => ?_) fun d _ q n hd => ?_
    · cases hd
      rfl
    · have hb := hnone d
      rw [show s.caller d = .setCount q n from hd] at hb
      cases hb
  · have hself := hno c
    rw [Player.setCaller_self] at hself
    cases hself
  · rw [show s.task = .readCount q from hq] at htask
    cases htask

/-- The write of the count completes the pair. -/
theorem PairsTracked.setCount (h : PairsTracked s) {p : π} {count : Nat}
    (hc : s.caller c = .setCount p count) :
    PairsTracked ({ s with sampleCount := count }.setCaller c
      .setPlaying) := by
  have hold : ∀ d, ((({ s with sampleCount := count }.setCaller c
      .setPlaying).caller d).between = true) → (s.caller d).between = true :=
    Player.forall_setCaller
      (P := fun d call => call.between = true → (s.caller d).between = true)
      (fun hd => nomatch hd) fun _ _ hd => hd
  refine ⟨?_, fun d e hd he => h.alone d e (hold d hd) (hold e he), ?_,
    fun _ q hq => ?_, fun q hq => ?_, h.played⟩
  · exact Player.forall_setCaller
      (P := fun _ call => ∀ a, call.args = some a → a ∈ s.calls)
      (fun _ ha => nomatch ha) fun d _ => h.args d
  · exact Player.forall_setCaller
      (P := fun _ call => ∀ q n, call = .setCount q n → s.samples = some q)
      (fun _ _ hd => nomatch hd) fun d _ => h.writing d
  · have hqp : some q = some p := hq.symm.trans (h.writing c p count hc)
    rw [Option.some.inj hqp]
    exact h.args c _ (by rw [hc]; rfl)
  · -- the playback is not between its reads while a call is between its
    -- writes
    have hnone := (h.reading q hq).2 c
    rw [hc] at hnone
    cases hnone

/-- Every step that meets the discipline keeps the invariant. -/
theorem PairsTracked.step (h : PairsTracked s) {a : PlayerAction τ π}
    (hg : Undisturbed s a) (happ : (player τ π).apply a s = some s') :
    PairsTracked s' := by
  cases a with
  | playback => exact h.playback hg happ
  | start c samples count =>
      have happ : s.start c samples count = some s' := happ
      unfold Player.start at happ
      split at happ
      · next hidle =>
        rw [← Option.some.inj happ]
        refine h.move c (.test samples count) rfl
          (by rw [hidle]; rfl) (fun _ ha => List.mem_cons_of_mem _ ha)
          (fun a ha => ?_) rfl rfl rfl rfl
        cases ha
        exact List.mem_cons_self
      · cases happ
  | call c =>
      have happ : s.call c = some s' := happ
      unfold Player.call at happ
      cases hc : s.caller c with
      | idle =>
          rw [hc] at happ
          cases happ
      | test samples count =>
          rw [hc] at happ
          rw [← Option.some.inj happ]
          refine h.move c _ ?_ (by rw [hc]; rfl) (fun _ ha => ha)
            (fun a ha => h.args c a ?_) rfl rfl rfl rfl
          · split <;> rfl
          · rw [hc, ← ha]
            split <;> rfl
      | stop samples count =>
          rw [hc] at happ
          rw [← Option.some.inj happ]
          exact h.move c (.setSamples samples count) rfl (by rw [hc]; rfl)
            (fun _ ha => ha) (fun a ha => h.args c a (by rw [hc]; exact ha))
            rfl rfl rfl rfl
      | setSamples samples count =>
          rw [hc] at happ
          rw [← Option.some.inj happ]
          obtain ⟨htask, hnone⟩ := hg (by rw [hc]; rfl)
          exact h.setSamples hc htask hnone
      | setCount samples count =>
          rw [hc] at happ
          rw [← Option.some.inj happ]
          exact h.setCount hc
      | setPlaying =>
          rw [hc] at happ
          rw [← Option.some.inj happ]
          exact h.move c .give rfl (by rw [hc]; rfl) (fun _ ha => ha)
            (fun a ha => nomatch ha) rfl rfl rfl rfl
      | give =>
          rw [hc] at happ
          rw [← Option.some.inj happ]
          exact h.move c .idle rfl (by rw [hc]; rfl) (fun _ ha => ha)
            (fun a ha => nomatch ha) rfl rfl rfl rfl
  | stop =>
      obtain rfl := Option.some.inj happ
      exact ⟨h.args, h.alone, h.writing, h.settled, h.reading, h.played⟩

/-- The index of the loop of `play_samples` stays below the count. -/
def IndexBounded (s : Player τ π) : Prop :=
  ∀ p count i, s.task = .out p count i → i < count

/-- A sample is output only below the count read. -/
theorem index_bounded (hr : (player τ π).Reachable s) : IndexBounded s := by
  refine hr.invariant (fun _ _ _ h => nomatch h)
    fun s a s' h _ happ p count i hout => ?_
  cases a with
  | playback =>
      have happ : s.playback = some s' := happ
      unfold Player.playback at happ
      split at happ
      · split at happ
        · rw [← Option.some.inj happ] at hout
          cases hout
        · cases happ
      · rw [← Option.some.inj happ] at hout
        cases hout
      · rw [← Option.some.inj happ] at hout
        cases hout
      · split at happ
        · split at happ <;> rw [← Option.some.inj happ] at hout <;> cases hout
        · rw [← Option.some.inj happ] at hout
          cases hout
      · rw [← Option.some.inj happ] at hout
        dsimp only at hout
        split at hout
        · next hi =>
          cases hout
          exact hi.1
        · cases hout
      · rw [← Option.some.inj happ] at hout
        cases hout
      · rw [← Option.some.inj happ] at hout
        cases hout
  | start c samples n =>
      have happ : s.start c samples n = some s' := happ
      unfold Player.start at happ
      split at happ
      · rw [← Option.some.inj happ] at hout
        exact h p count i hout
      · cases happ
  | call c =>
      have happ : s.call c = some s' := happ
      unfold Player.call at happ
      split at happ
      · cases happ
      all_goals
        rw [← Option.some.inj happ] at hout
        exact h p count i hout
  | stop =>
      obtain rfl := Option.some.inj happ
      exact h p count i hout

/-- Under the discipline, the pair `play_samples` is called with was
passed by one `audio_player_start` call; so when every call passes a
count its buffer holds, no sample is read past a buffer's end. -/
theorem played_pair_passed (hr : (player τ π).ReachableBy Undisturbed s) :
    (∀ a, s.task.pair = some a → a ∈ s.calls)
      ∧ ∀ size : π → Nat, (∀ a ∈ s.calls, a.2 ≤ size a.1) →
          ∀ p count i, s.task = .out p count i → i < size p := by
  have h := hr.invariant pairsTracked_init fun _ _ _ h hg happ => h.step hg happ
  refine ⟨h.played, fun size hsize p count i hout => ?_⟩
  have hmem := h.played (p, count) (by rw [hout]; rfl)
  exact Nat.lt_of_lt_of_le (index_bounded hr.reachable p count i hout)
    (hsize _ hmem)

end Pairs

/-- The two buffers that are played: the beep of 9600 samples, by the
task of a feed, and the intercom's session buffer of 256000, by
`session_play_task`. Each task plays one of them, so they name the
tasks. -/
inductive Sound where
  | beep
  | session
deriving DecidableEq

/-- The samples a buffer holds. -/
def Sound.size : Sound → Nat
  | .beep => 9600
  | .session => 256000

instance {P : Sound → Prop} [DecidablePred P] : Decidable (∀ c, P c) :=
  decidable_of_iff (P .beep ∧ P .session)
    ⟨fun h c => by cases c <;> simp [h], fun h => ⟨h _, h _⟩⟩

instance (s : Player Sound Sound) : ∀ a, Decidable (Undisturbed s a)
  | .call c => inferInstanceAs (Decidable ((s.caller c).atSetSamples = true →
      s.task.between = false ∧ ∀ d, (s.caller d).between = false))
  | .playback => inferInstanceAs (Decidable (s.task = .readSamples →
      ∀ d, (s.caller d).between = false))
  | .start _ _ _ | .stop => inferInstanceAs (Decidable True)

/-- A session of one sample is played to its end, then a beep up to its
first sample's output. -/
def sessionThenBeep : List (PlayerAction Sound Sound) :=
  .start .session .session 1 :: List.replicate 5 (.call .session)
    ++ List.replicate 8 .playback
    ++ .start .beep .beep 9600 :: List.replicate 5 (.call .beep)
    ++ List.replicate 5 .playback

/-- The beep is played with its own pair, within its buffer. -/
theorem played_pair_beep :
    ∃ s : Player Sound Sound, s.calls = [(.beep, 9600), (.session, 1)]
      ∧ s.task = .out .beep 9600 0
      ∧ ((∀ a, s.task.pair = some a → a ∈ s.calls)
        ∧ ∀ size : Sound → Nat, (∀ a ∈ s.calls, a.2 ≤ size a.1) →
          ∀ p count i, s.task = .out p count i → i < size p) := by
  have hrun : ((player Sound Sound).runBy Undisturbed Player.init
      sessionThenBeep).map (fun s => (s.calls, s.task))
      = some ([(.beep, 9600), (.session, 1)], .out .beep 9600 0) := by decide
  obtain ⟨s, hs, heq⟩ := Option.map_eq_some_iff.mp hrun
  obtain ⟨hcalls, htask⟩ := Prod.mk.inj heq
  exact ⟨s, hcalls, htask,
    played_pair_passed (Machine.ReachableBy.init.runBy hs)⟩

/-- The intercom's call is overtaken by a beep between its two writes:
the playback reads the beep's pointer and the session's count. -/
def overtaken : List (PlayerAction Sound Sound) :=
  [.start .session .session 256000, .call .session, .call .session,
    .start .beep .beep 9600, .call .beep, .call .beep, .call .beep,
    .call .session, .call .session, .call .session,
    .playback, .playback, .playback]

/-- A mixed pair is played: the beep buffer with the session's count. -/
theorem mixed_pair_played :
    ((player Sound Sound).run Player.init overtaken).map
        (fun s => (s.calls, s.task.pair))
      = some ([(.beep, 9600), (.session, 256000)], some (.beep, 256000))
    ∧ Sound.size .beep < 256000 := by
  decide +kernel

end SitNChow
