/-
The player with a single caller: what its playback and its call still
have to output, and how each step of the two tasks moves that along.

# Where the samples are

A request is with the call (`asked`) until the call sets `s_playing`, and
with the playback (`work`) from then on. A playback whose flag is clear
outputs no more than the sample it is at. A call that finds the player
busy clears the flag and hands its own request over later, so for a while
the samples of two requests can be left.

# Handing over

`Ready` is what the hand-over needs: when the call sets the flag, the
playback has not yet read a pair, or has read the call's and output
nothing of it. `Solo` is kept by every step that meets it, and `rank`
bounds the steps until the player is quiet. The step lemmas are stated
for the samples left, over any reading of a sample's index, so the owner
of the buffer says what is read.
-/
import SitNChow.Audio.Player

namespace SitNChow

open Kit

universe v w

-- ============================================================ what is left

/-- Samples `next .. count - 1`, still to be output for `samples`. -/
structure Work (π : Type v) where
  samples : π
  next : Nat
  count : Nat
deriving DecidableEq

/-- The samples of a work that are for `p`, when index `i` is read as
`f i`. -/
def leftOf {π : Type v} {α : Type w} [DecidableEq π] (f : Nat → α) (p : π) :
    Option (Work π) → List α
  | some x =>
      if x.samples = p then (List.range' x.next (x.count - x.next)).map f
      else []
  | none => []

/-- Only the indices still to be output are read. -/
theorem leftOf_congr {π : Type v} {α : Type w} [DecidableEq π] {f g : Nat → α}
    {o : Option (Work π)}
    (h : ∀ x, o = some x → ∀ i, x.next ≤ i → i < x.count → f i = g i)
    (p : π) : leftOf f p o = leftOf g p o := by
  cases o with
  | none => rfl
  | some x =>
      dsimp only [leftOf]
      split
      · refine List.map_congr_left fun i hi => ?_
        rw [List.mem_range'_1] at hi
        exact h x rfl i hi.1 (by omega)
      · rfl

/-- Nothing is left for another request. -/
theorem leftOf_other {π : Type v} {α : Type w} [DecidableEq π] {f : Nat → α}
    {p : π} {o : Option (Work π)} (h : ∀ x, o = some x → x.samples ≠ p) :
    leftOf f p o = [] := by
  cases o with
  | none => rfl
  | some x => exact if_neg (h x rfl)

/-- The playback would play the pair from its first sample: it is before
its reads, or has read that pair and output nothing of it. -/
def PlaybackPc.Ready {π : Type v} (samples : Option π) (count : Nat) :
    PlaybackPc π → Prop
  | .take | .readSamples => True
  | .readCount q => q = samples
  | .check q n => q = samples ∧ n = count
  | .loop p n i => samples = some p ∧ n = count ∧ i = 0
  | .out _ _ _ | .clear => False

instance {π : Type v} [DecidableEq π] (samples : Option π) (count : Nat) :
    DecidablePred (PlaybackPc.Ready samples count)
  | .take | .readSamples => .isTrue trivial
  | .readCount q => inferInstanceAs (Decidable (q = samples))
  | .check q n => inferInstanceAs (Decidable (q = samples ∧ n = count))
  | .loop p n i =>
      inferInstanceAs (Decidable (samples = some p ∧ n = count ∧ i = 0))
  | .out _ _ _ | .clear => .isFalse id

/-- Between the test of the flag and its set. -/
def CallPc.silent {π : Type v} : CallPc π → Bool
  | .setSamples _ _ | .setCount _ _ | .setPlaying => true
  | .idle | .test _ _ | .stop _ _ | .give => false

namespace Player

variable {π : Type v}

/-- The pair in the module state, with nothing of it output. -/
def kept (s : Player Unit π) : Option (Work π) :=
  s.samples.map fun p => ⟨p, 0, s.sampleCount⟩

/-- What the playback still has to output. -/
def work (s : Player Unit π) : Option (Work π) :=
  match s.task with
  | .out p n i => some ⟨p, i, if s.playing then n else i + 1⟩
  | .loop p n i => if s.playing then some ⟨p, i, n⟩ else none
  | .clear => none
  | .take | .readSamples | .readCount _ | .check _ _ =>
      if s.playing then s.kept else none

/-- What the call has not handed over yet. -/
def asked (s : Player Unit π) : Option (Work π) :=
  match s.caller () with
  | .test p n | .stop p n | .setSamples p n | .setCount p n => some ⟨p, 0, n⟩
  | .setPlaying => s.kept
  | .give | .idle => none

/-- No call is being made, no playback is pending or running. -/
def quiet [DecidableEq π] (s : Player Unit π) : Bool :=
  decide (s.caller () = .idle) && !s.playSem && decide (s.task = .take)

/-- The playback would play the pair in the module state from its first
sample. -/
abbrev Ready (s : Player Unit π) : Prop := s.task.Ready s.samples s.sampleCount

/-- The playback plays the pair in the module state, if any. -/
def Current (s : Player Unit π) : Prop :=
  match s.task with
  | .take | .readSamples | .clear => True
  | .readCount q => q = s.samples
  | .check q n => q = s.samples ∧ n = s.sampleCount
  | .loop p n _ | .out p n _ => s.samples = some p ∧ n = s.sampleCount

-- ================================================================ the rank

/-- The samples a playback that keeps its flag may still output. -/
def due (s : Player Unit π) : Nat := if s.playing then s.sampleCount else 0

/-- The steps of a pass that finds the flag clear, if the semaphore is
given for one. -/
def again (s : Player Unit π) : Nat := if s.playSem then 6 else 0

/-- A bound on the steps of the playback until it waits at its
semaphore. -/
def playbackRank (s : Player Unit π) : Nat :=
  match s.task with
  | .take => if s.playSem then 2 * s.due + 6 else 0
  | .clear => s.again + 1
  | .out _ _ i => s.again + 2 * (s.due - (i + 1)) + 3
  | .loop _ _ i => s.again + 2 * (s.due - i) + 2
  | .check _ _ => s.again + 2 * s.due + 3
  | .readCount _ => s.again + 2 * s.due + 4
  | .readSamples => s.again + 2 * s.due + 5

/-- A bound on the steps of a call from here, and on those it adds to the
playback's; `count` is the count in the module state. -/
def callRank (count : Nat) : CallPc π → Nat
  | .idle => 0
  | .give => 2 * count + 7
  | .setPlaying => 4 * count + 8
  | .setCount _ n => 4 * n + 9
  | .setSamples _ n => 4 * n + 10
  | .stop _ n => 4 * n + 11
  | .test _ n => 4 * n + 12

/-- A bound on the steps until the player is quiet. -/
def rank (s : Player Unit π) : Nat :=
  s.playbackRank + callRank s.sampleCount (s.caller ())

-- =========================================================== the invariant

/-- A player whose one caller sets the flag only when it is `Ready`. -/
structure Solo (s : Player Unit π) : Prop where
  index : ∀ p n i, s.task = .out p n i → i < n
  silent : (s.caller ()).silent = true → s.playing = false
  pointer : ∀ p n, s.caller () = .setCount p n → s.samples = some p
  written : s.caller () = .setPlaying ∨ s.playing = true →
    ∃ p, s.samples = some p
  current : s.playing = true → s.Current
  given : s.playing = true → s.task = .take →
    s.playSem = true ∨ s.caller () = .give

/-- A player that was never started. -/
theorem solo_init : Solo (Player.init : Player Unit π) where
  index := fun _ _ _ h => nomatch h
  silent := fun _ => rfl
  pointer := fun _ _ h => nomatch h
  written := fun h => by rcases h with h | h <;> cases h
  current := fun h => nomatch h
  given := fun h => nomatch h

variable {s s' : Player Unit π}

/-- Back at its semaphore with the flag clear, the playback has at most
one pass left, and that finds the flag clear. -/
theorem playbackRank_back (s : Player Unit π) :
    { s with playing := false, task := .take }.playbackRank = s.again := by
  cases hsem : s.playSem <;> simp [playbackRank, again, due, hsem]

/-- The playback waits only at its semaphore. -/
theorem playback_eq_none (h : s.playback = none) :
    s.task = .take ∧ s.playSem = false := by
  unfold Player.playback at h
  split at h
  · next ht =>
    split at h
    · cases h
    · next hsem => exact ⟨ht, Bool.eq_false_iff.mpr hsem⟩
  · cases h
  · cases h
  · split at h
    · split at h <;> cases h
    · cases h
  · cases h
  · cases h
  · cases h

/-- A call that has begun has a next step. -/
theorem call_isSome (hc : s.caller () ≠ .idle) : ∃ s', s.call () = some s' := by
  unfold Player.call
  cases h : s.caller () with
  | idle => exact absurd h hc
  | test _ _ | stop _ _ | setSamples _ _ | setCount _ _ | setPlaying | give =>
      exact ⟨_, rfl⟩

/-- A playback at its semaphore has nothing to output, unless a call is
about to give it. -/
theorem Solo.work_eq_none (h : Solo s) (hblocked : s.playback = none)
    (hc : s.caller () ≠ .give) : s.work = none := by
  obtain ⟨htask, hsem⟩ := playback_eq_none hblocked
  have hclear : s.playing = false := by
    refine Bool.eq_false_iff.mpr fun hplaying => ?_
    rcases h.given hplaying htask with hgiven | hgive
    · cases hsem.symm.trans hgiven
    · exact hc hgive
  simp [work, htask, hclear]

-- ======================================================= the playback's steps

/-- What a playback step does to the work: nothing, or its end is
noticed, or its next sample is output. -/
inductive Played (s s' : Player Unit π) : Prop
  | same (ht : ∀ p n i, s.task ≠ .out p n i) (hw : s'.work = s.work)
  | done (ht : ∀ p n i, s.task ≠ .out p n i)
      (hend : ∀ x, s.work = some x → x.count ≤ x.next) (hw : s'.work = none)
  | out (p : π) (n i count : Nat) (ht : s.task = .out p n i)
      (hw : s.work = some ⟨p, i, count⟩) (hi : i < count)
      (hw' : s'.work = some ⟨p, i + 1, count⟩
        ∨ count = i + 1 ∧ s'.work = none)

/-- A playback step keeps the invariant if the flag is not set by it and
stays with the pair in the module state. -/
theorem Solo.moved (h : Solo s) (hs : s.playback = some s')
    (hplaying : s'.playing = true → s.playing = true)
    (hindex : ∀ p n i, s'.task = .out p n i → i < n)
    (hcurrent : s'.playing = true → s'.Current)
    (hbusy : s'.playing = true → s'.task ≠ .take) : Solo s' := by
  obtain ⟨hsamples, -, hcaller, -⟩ := Player.playback_frame hs
  refine ⟨hindex, fun hc => ?_, fun p n hc => ?_, fun hw => ?_, hcurrent,
    fun hp ht => absurd ht (hbusy hp)⟩
  · rw [hcaller] at hc
    exact Bool.eq_false_iff.mpr fun hp =>
      Bool.eq_false_iff.mp (h.silent hc) (hplaying hp)
  · rw [hcaller] at hc
    rw [hsamples]
    exact h.pointer p n hc
  · rw [hcaller] at hw
    rw [hsamples]
    exact h.written (hw.imp_right hplaying)

/-- At the check of the pair that was read, nothing to play means that the
flag is cleared; with the flag set it is the pair in the module state. -/
theorem Solo.playback_check (h : Solo s) (hs : s.playback = some s') {q : Option π}
    {n : Nat} (ht : s.task = .check q n) :
    Solo s' ∧ s'.playbackRank < s.playbackRank ∧ Played s s' := by
  have hmoved := h.moved hs
  simp only [Player.playback, ht] at hs
  -- with the flag set, the pair read is the one in the module state
  have hcur : s.playing = true → q = s.samples ∧ n = s.sampleCount := by
    intro hp
    have hcur := h.current hp
    rwa [Current, ht] at hcur
  split at hs
  · next p =>
    split at hs
    · next hn =>
      -- nothing to play
      obtain rfl := Option.some.inj hs
      refine ⟨hmoved (by simp) (by simp) (by simp) (by simp), ?_,
        .done (by simp [ht]) (fun x hx => ?_) (by simp [work])⟩
      · rw [playbackRank_back]
        simp only [playbackRank, ht]
        omega
      · simp only [work, ht] at hx
        split at hx
        · next hp =>
          obtain ⟨hq, hm⟩ := hcur hp
          simp only [kept, ← hq, Option.map_some, Option.some.injEq] at hx
          rw [← hx]
          show s.sampleCount ≤ 0
          omega
        · cases hx
    · obtain rfl := Option.some.inj hs
      refine ⟨hmoved (fun hp => hp) (by simp) (fun hp => ?_) (by simp), ?_,
        .same (by simp [ht]) ?_⟩
      · exact ⟨(hcur hp).1.symm, (hcur hp).2⟩
      · simp [playbackRank, ht, again, due]
      · cases hp : s.playing with
        | false => simp [work, ht, hp]
        | true =>
            obtain ⟨hq, hm⟩ := hcur hp
            simp [work, ht, hp, kept, ← hq, hm]
  · -- no pair at all: the flag is clear
    have hp : s.playing = false := by
      refine Bool.eq_false_iff.mpr fun hp => ?_
      obtain ⟨p, hsome⟩ := h.written (.inr hp)
      cases (hcur hp).1.trans hsome
    obtain rfl := Option.some.inj hs
    refine ⟨hmoved (by simp) (by simp) (by simp) (by simp), ?_,
      .same (by simp [ht]) (by simp [work, ht, hp])⟩
    rw [playbackRank_back]
    simp only [playbackRank, ht]
    omega

/-- At the head of the loop the next sample is output, or the playback is
at its end. -/
theorem Solo.playback_loop (h : Solo s) (hs : s.playback = some s') {p : π}
    {n i : Nat} (ht : s.task = .loop p n i) :
    Solo s' ∧ s'.playbackRank < s.playbackRank ∧ Played s s' := by
  have hmoved := h.moved hs
  simp only [Player.playback, ht] at hs
  obtain rfl := Option.some.inj hs
  by_cases hi : i < n ∧ s.playing = true
  · have hcur := h.current hi.2
    rw [Current, ht] at hcur
    refine ⟨hmoved (fun hp => hp) (fun q m j hout => ?_) (fun _ => ?_) ?_, ?_,
      .same (by simp [ht]) ?_⟩
    · simp only [hi, and_self, if_true, PlaybackPc.out.injEq] at hout
      omega
    · simp only [Current, hi, and_self, if_true]
      exact hcur
    · simp [hi]
    · simp only [playbackRank, ht, hi, and_self, if_true, again, due]
      omega
    · simp [work, ht, hi]
  · refine ⟨hmoved (fun hp => hp) (by simp [hi]) (fun _ => ?_) (by simp [hi]),
      ?_, .done (by simp [ht]) (fun x hx => ?_) (by simp [work, hi])⟩
    · simp [Current, hi]
    · simp only [playbackRank, ht, hi, if_false, again]
      omega
    · simp only [work, ht] at hx
      split at hx
      · next hp =>
        rw [← Option.some.inj hx]
        exact Nat.not_lt.mp fun hlt => hi ⟨hlt, hp⟩
      · cases hx

/-- A playback step keeps the invariant, lowers the rank and leaves what
the call has asked for as it is. -/
theorem Solo.playback (h : Solo s) (hs : s.playback = some s') :
    Solo s' ∧ s'.rank < s.rank ∧ s'.asked = s.asked ∧ Played s s' := by
  have hmoved := h.moved hs
  obtain ⟨hsamples, hcount, hcaller, -⟩ := Player.playback_frame hs
  have hasked : s'.asked = s.asked := by
    simp only [asked, kept, hsamples, hcount, hcaller]
  suffices hmain : Solo s' ∧ s'.playbackRank < s.playbackRank ∧ Played s s' by
    obtain ⟨hsolo, hrank, hplayed⟩ := hmain
    refine ⟨hsolo, ?_, hasked, hplayed⟩
    rw [rank, rank, hcount, hcaller]
    omega
  have hplayback := hs
  unfold Player.playback at hs
  split at hs
  · next ht =>
    split at hs
    · next hsem =>
      obtain rfl := Option.some.inj hs
      refine ⟨hmoved (fun hp => hp) (by simp) (fun _ => trivial) (by simp),
        ?_, .same (by simp [ht]) ?_⟩
      · simp [playbackRank, ht, hsem, again, due]
      · simp [work, ht, kept]
    · cases hs
  · next ht =>
    obtain rfl := Option.some.inj hs
    refine ⟨hmoved (fun hp => hp) (by simp) (fun _ => rfl) (by simp),
      ?_, .same (by simp [ht]) ?_⟩
    · simp [playbackRank, ht, again, due]
    · simp [work, ht, kept]
  · next q ht =>
    obtain rfl := Option.some.inj hs
    refine ⟨hmoved (fun hp => hp) (by simp) (fun hp => ?_) (by simp),
      ?_, .same (by simp [ht]) ?_⟩
    · have hcur := h.current hp
      rw [Current, ht] at hcur
      exact ⟨hcur, rfl⟩
    · simp [playbackRank, ht, again, due]
    · simp [work, ht, kept]
  · next q n ht => exact h.playback_check hplayback ht
  · next p n i ht => exact h.playback_loop hplayback ht
  · next p n i ht =>
    have hi := h.index p n i ht
    obtain rfl := Option.some.inj hs
    refine ⟨hmoved (fun hp => hp) (by simp) (fun hp => ?_) (by simp), ?_, ?_⟩
    · have hcur := h.current hp
      rwa [Current, ht] at hcur
    · simp [playbackRank, ht, again, due]
    · cases hp : s.playing with
      | true =>
          exact .out p n i n ht (by simp [work, ht, hp]) hi (.inl (by simp [work]))
      | false =>
          exact .out p n i (i + 1) ht (by simp [work, ht, hp])
            (Nat.lt_succ_self i) (.inr ⟨rfl, by simp [work]⟩)
  · next ht =>
    obtain rfl := Option.some.inj hs
    refine ⟨hmoved (by simp) (by simp) (by simp) (by simp), ?_,
      .same (by simp [ht]) (by simp [work, ht])⟩
    rw [playbackRank_back]
    simp only [playbackRank, ht]
    omega

/-- What a playback step outputs for `p`. -/
def output {α : Type w} [DecidableEq π] (s : Player Unit π) (f : Nat → α)
    (p : π) : List α :=
  match s.task with
  | .out q _ i => if q = p then [f i] else []
  | _ => []

/-- A playback step starts no work. -/
theorem Played.work_of (h : Played s s') {x : Work π}
    (hx : s'.work = some x) :
    ∃ y, s.work = some y ∧ y.samples = x.samples := by
  cases h with
  | same _ hw => exact ⟨x, hw ▸ hx, rfl⟩
  | done _ _ hw => cases hw.symm.trans hx
  | out p n i count _ hw _ hw' =>
      rcases hw' with hw' | ⟨-, hw'⟩
      · cases hw'.symm.trans hx
        exact ⟨⟨p, i, count⟩, hw, rfl⟩
      · cases hw'.symm.trans hx

/-- What is left before a playback step is what the step outputs, then
what is left after it. -/
theorem Played.left {α : Type w} [DecidableEq π] (h : Played s s')
    (f : Nat → α) (p : π) :
    leftOf f p s.work = s.output f p ++ leftOf f p s'.work := by
  have hsilent : (∀ p n i, s.task ≠ .out p n i) → s.output f p = [] := by
    intro ht
    unfold output
    split
    · next q n i hout => exact absurd hout (ht q n i)
    · rfl
  cases h with
  | same ht hw => simp [hsilent ht, hw]
  | done ht hend hw =>
      rw [hsilent ht, hw]
      cases hx : s.work with
      | none => rfl
      | some x => simp [leftOf, Nat.sub_eq_zero_of_le (hend x hx)]
  | out q n i count ht hw hi hw' =>
      have hsplit : count - i = count - (i + 1) + 1 := by omega
      rw [hw]
      simp only [output, ht]
      by_cases hq : q = p
      · rcases hw' with hw' | ⟨rfl, hw'⟩
        · simp [leftOf, hw', hq, hsplit, List.range'_succ]
        · simp [leftOf, hw', hq, hsplit]
      · rcases hw' with hw' | ⟨rfl, hw'⟩
        · simp [leftOf, hw', hq]
        · simp [leftOf, hw', hq]

-- =========================================================== the call's steps

/-- What a step of the call does to the samples left: nothing, or it
cuts the playback short, or it hands its own request over. -/
inductive Called (s s' : Player Unit π) : Prop
  | same (hc : ∀ p n, s.caller () ≠ .stop p n) (hw : s'.work = s.work)
      (ha : s'.asked = s.asked)
  | stopped (p : π) (n : Nat) (hc : s.caller () = .stop p n)
      (hw : ∀ x, s'.work = some x →
        ∃ m, s.work = some ⟨x.samples, x.next, m⟩ ∧ x.count ≤ m)
      (ha : s'.asked = s.asked)
  | handed (hc : s.caller () = .setPlaying) (hw : s.work = none)
      (hw' : s'.work = s.asked) (ha : s'.asked = none)

/-- A step of the call starts no work but the one it hands over. -/
theorem Called.work_of (h : Called s s') {x : Work π} (hx : s'.work = some x) :
    (∃ m, s.work = some ⟨x.samples, x.next, m⟩)
      ∨ s.work = none ∧ s.asked = some x := by
  cases h with
  | same _ hw _ => exact .inl ⟨x.count, hw ▸ hx⟩
  | stopped _ _ _ hw _ =>
      obtain ⟨m, hm, -⟩ := hw x hx
      exact .inl ⟨m, hm⟩
  | handed _ hw hw' _ => exact .inr ⟨hw, hw' ▸ hx⟩

/-- Nor does it ask for anything new. -/
theorem Called.asked_of (h : Called s s') {x : Work π} (hx : s'.asked = some x) :
    s.asked = some x := by
  cases h with
  | same _ _ ha => exact ha ▸ hx
  | stopped _ _ _ _ ha => exact ha ▸ hx
  | handed _ _ _ ha => cases ha.symm.trans hx

/-- What has been handed over is not asked for any more. -/
theorem Called.asked_eq_none (h : Called s s') {x : Work π}
    (hnone : s.work = none) (hx : s'.work = some x) : s'.asked = none := by
  cases h with
  | same _ hw _ => cases (hw ▸ hnone).symm.trans hx
  | stopped _ _ _ hw _ =>
      obtain ⟨m, hm, -⟩ := hw x hx
      cases hnone.symm.trans hm
  | handed _ _ _ ha => exact ha

/-- A work cut short leaves the first part of its samples. -/
theorem leftOf_prefix {α : Type w} [DecidableEq π] {o o' : Option (Work π)}
    (h : ∀ x, o' = some x →
      ∃ m, o = some ⟨x.samples, x.next, m⟩ ∧ x.count ≤ m)
    (f : Nat → α) (p : π) : leftOf f p o' <+: leftOf f p o := by
  cases o' with
  | none => exact List.nil_prefix
  | some x =>
      obtain ⟨m, rfl, hle⟩ := h x rfl
      dsimp only [leftOf]
      split
      · have hsplit : m - x.next = x.count - x.next + (m - max x.count x.next) := by
          omega
        refine ⟨(List.range' (x.next + (x.count - x.next))
          (m - max x.count x.next)).map f, ?_⟩
        rw [← List.map_append, hsplit, ← List.range'_append_1]
      · exact List.nil_prefix

/-- The step that hands a request over, or cuts a playback short, is told
apart by the samples left; all others leave them. -/
theorem Called.left {α : Type w} [DecidableEq π] (h : Called s s')
    (hc : ∀ p n, s.caller () ≠ .stop p n) (f : Nat → α) (p : π) :
    leftOf f p s'.work ++ leftOf f p s'.asked
      = leftOf f p s.work ++ leftOf f p s.asked := by
  cases h with
  | same _ hw ha => rw [hw, ha]
  | stopped q n hstop => exact absurd hstop (hc q n)
  | handed _ hw hw' ha =>
      rw [hw, hw', ha]
      simp [leftOf]

/-- The playback's rank grows at most with the samples it may output. -/
theorem playbackRank_le {d : Nat} (htask : s'.task = s.task)
    (hsem : s'.playSem = s.playSem) (hdue : s'.due ≤ s.due + d) :
    s'.playbackRank ≤ s.playbackRank + 2 * d := by
  unfold playbackRank again
  rw [htask, hsem]
  cases s.task with
  | take =>
      cases s.playSem with
      | true =>
          simp only [if_true]
          omega
      | false => simp
  | readSamples | readCount _ | check _ _ | loop _ _ _ | out _ _ _ | clear =>
      dsimp only
      omega

/-- Giving the semaphore adds at most one pass. -/
theorem playbackRank_give (htask : s'.task = s.task) (hdue : s'.due = s.due)
    (hsem : s'.playSem = true) :
    s'.playbackRank ≤ s.playbackRank + 2 * s.due + 6 := by
  unfold playbackRank again
  rw [htask, hsem, hdue]
  cases s.task with
  | take =>
      simp only [if_true]
      omega
  | readSamples | readCount _ | check _ _ | loop _ _ _ | out _ _ _ | clear =>
      simp only [if_true]
      omega

/-- A call comes to its next place, having written module state only. -/
theorem Solo.called (h : Solo s) {x : Player Unit π} {pc : CallPc π}
    (htask : x.task = s.task) (hsilent : pc.silent = true → x.playing = false)
    (hpointer : ∀ p n, pc = .setCount p n → x.samples = some p)
    (hwritten : pc = .setPlaying ∨ x.playing = true →
      ∃ p, x.samples = some p)
    (hcurrent : x.playing = true → x.Current)
    (hgiven : x.playing = true → x.task = .take →
      x.playSem = true ∨ pc = .give) : Solo (x.setCaller () pc) := by
  have hpc : (x.setCaller () pc).caller () = pc := Player.setCaller_self x () pc
  refine ⟨?_, ?_, ?_, ?_, hcurrent, ?_⟩
  · show ∀ p n i, x.task = .out p n i → i < n
    rw [htask]
    exact h.index
  · rw [hpc]
    exact hsilent
  · rw [hpc]
    exact hpointer
  · rw [hpc]
    exact hwritten
  · rw [hpc]
    exact hgiven

/-- When the flag is set on a ready playback, the pair in the module state
is all it has to output, from the first sample. -/
theorem Ready.handed (h : s.Ready) (hp : s.playing = false) :
    s.Current ∧ s.work = none ∧ { s with playing := true }.work = s.kept := by
  cases ht : s.task with
  | take | readSamples => simp [Current, work, kept, ht, hp]
  | readCount q =>
      rw [Player.Ready, ht] at h
      exact ⟨by rw [Current, ht]; exact h, by simp [work, ht, hp],
        by simp [work, kept]⟩
  | check q n =>
      rw [Player.Ready, ht] at h
      exact ⟨by rw [Current, ht]; exact h, by simp [work, ht, hp],
        by simp [work, kept]⟩
  | loop p n i =>
      rw [Player.Ready, ht] at h
      obtain ⟨hsamples, rfl, rfl⟩ := h
      exact ⟨by rw [Current, ht]; exact ⟨hsamples, rfl⟩, by simp [work, ht, hp],
        by simp [work, kept, hsamples]⟩
  | out _ _ _ | clear =>
      rw [Player.Ready, ht] at h
      cases h

/-- A step of the call keeps the invariant and lowers the rank. -/
theorem Solo.call (h : Solo s) (hready : s.caller () = .setPlaying → s.Ready)
    (hs : s.call () = some s') : Solo s' ∧ s'.rank < s.rank ∧ Called s s' := by
  -- the rank, from the call's place and the playback's rank
  have hrank : ∀ (x : Player Unit π) (pc : CallPc π),
      x.playbackRank + callRank x.sampleCount pc < s.rank →
      (x.setCaller () pc).rank < s.rank := by
    intro x pc hlt
    rw [rank, Player.setCaller_self]
    exact hlt
  unfold Player.call at hs
  cases hc : s.caller () with
  | idle => simp [hc] at hs
  | test p n =>
      simp only [hc, Option.some.injEq] at hs
      subst hs
      have hgiven : s.playing = true → s.task = .take → s.playSem = true := by
        intro hp ht
        rcases h.given hp ht with hsem | hgive
        · exact hsem
        · cases hc.symm.trans hgive
      cases hp : s.playing with
      | true =>
          refine ⟨h.called rfl (by simp [CallPc.silent]) (by simp)
            (fun _ => h.written (.inr hp)) h.current
            (fun hp ht => .inl (hgiven hp ht)), hrank _ _ ?_,
            .same (by simp [hc]) rfl (by simp [asked, hc])⟩
          simp [rank, callRank, hc]
      | false =>
          refine ⟨h.called rfl (fun _ => hp) (by simp) (by simp [hp]) h.current
            (by simp [hp]), hrank _ _ ?_,
            .same (by simp [hc]) rfl (by simp [asked, hc])⟩
          simp [rank, callRank, hc]
  | stop p n =>
      simp only [hc, Option.some.injEq] at hs
      subst hs
      refine ⟨h.called rfl (fun _ => rfl) (by simp) (by simp) (by simp)
        (by simp), hrank _ _ ?_, .stopped p n hc (fun x hx => ?_)
        (by simp [asked, hc])⟩
      · have hle : { s with playing := false }.playbackRank ≤ s.playbackRank :=
          playbackRank_le (d := 0) rfl rfl (Nat.zero_le _)
        simp only [rank, callRank, hc]
        omega
      · -- at most the sample being output is left
        simp only [work, Player.setCaller] at hx
        split at hx
        · next q m i ht =>
          obtain rfl := Option.some.inj hx
          have hi := h.index q m i ht
          simp only [work, ht]
          refine ⟨_, rfl, ?_⟩
          simp only [Bool.false_eq_true, if_false]
          split <;> omega
        all_goals simp at hx
  | setSamples p n =>
      simp only [hc, Option.some.injEq] at hs
      subst hs
      have hp : s.playing = false := h.silent (by simp [hc, CallPc.silent])
      refine ⟨h.called rfl (fun _ => hp) (fun q m hq => ?_) (by simp [hp])
        (by simp [hp]) (by simp [hp]), hrank _ _ ?_,
        .same (by simp [hc]) ?_ (by simp [asked, hc])⟩
      · cases hq
        rfl
      · have hle : { s with samples := some p }.playbackRank ≤ s.playbackRank :=
          playbackRank_le (d := 0) rfl rfl (Nat.le_refl _)
        simp only [rank, callRank, hc]
        omega
      · simp [work, Player.setCaller, hp]
  | setCount p n =>
      simp only [hc, Option.some.injEq] at hs
      subst hs
      have hp : s.playing = false := h.silent (by simp [hc, CallPc.silent])
      have hptr := h.pointer p n hc
      refine ⟨h.called rfl (fun _ => hp) (by simp) (fun _ => ⟨p, hptr⟩)
        (by simp [hp]) (by simp [hp]), hrank _ _ ?_,
        .same (by simp [hc]) ?_ ?_⟩
      · have hle : { s with sampleCount := n }.playbackRank ≤ s.playbackRank :=
          playbackRank_le (d := 0) rfl rfl (by simp [due, hp])
        simp only [rank, callRank, hc]
        omega
      · simp [work, Player.setCaller, hp]
      · simp [asked, kept, Player.setCaller, hc, hptr]
  | setPlaying =>
      simp only [hc, Option.some.injEq] at hs
      subst hs
      have hp : s.playing = false := h.silent (by simp [hc, CallPc.silent])
      obtain ⟨hcurrent, hnone, hwork⟩ := Ready.handed (hready hc) hp
      refine ⟨h.called rfl (by simp [CallPc.silent]) (by simp)
        (fun _ => h.written (.inl hc)) (fun _ => hcurrent) (fun _ _ => .inr rfl),
        hrank _ _ ?_, .handed hc hnone ?_ (by simp [asked])⟩
      · have hle : { s with playing := true }.playbackRank
            ≤ s.playbackRank + 2 * s.sampleCount :=
          playbackRank_le rfl rfl (by simp [due])
        simp only [rank, callRank, hc]
        omega
      · rw [asked, hc]
        exact hwork
  | give =>
      simp only [hc, Option.some.injEq] at hs
      subst hs
      refine ⟨h.called rfl (by simp [CallPc.silent]) (by simp)
        (fun hw => h.written (hw.imp_left (by simp))) h.current
        (fun _ _ => .inl rfl), hrank _ _ ?_,
        .same (by simp [hc]) rfl (by simp [asked, hc])⟩
      have hle : { s with playSem := true }.playbackRank
          ≤ s.playbackRank + 2 * s.due + 6 := playbackRank_give rfl rfl rfl
      have hdue : s.due ≤ s.sampleCount := by
        unfold due
        split <;> omega
      simp only [rank, callRank, hc]
      omega

/-- A call begins: what it asks for is left besides what the playback
still outputs. -/
theorem Solo.start (h : Solo s) (hc : s.caller () = .idle) (p : π) (n : Nat) :
    ∃ s', s.start () p n = some s' ∧ Solo s' ∧ s'.rank = s.rank + 4 * n + 12
      ∧ s'.work = s.work ∧ s.asked = none ∧ s'.asked = some ⟨p, 0, n⟩ := by
  refine ⟨{ s with calls := (p, n) :: s.calls }.setCaller () (.test p n),
    by rw [Player.start, hc], ?_, ?_, rfl, ?_, ?_⟩
  · refine h.called rfl (fun hs => nomatch hs) (fun _ _ hs => nomatch hs)
      (fun hw => h.written (hw.imp_left fun hs => nomatch hs)) h.current
      fun hp ht => ?_
    rcases h.given hp ht with hsem | hgive
    · exact .inl hsem
    · cases hc.symm.trans hgive
  · have hsame : ({ s with calls := (p, n) :: s.calls }.setCaller ()
        (.test p n)).playbackRank = s.playbackRank := rfl
    simp [rank, callRank, hc, hsame, Nat.add_assoc]
  · simp [asked, hc]
  · simp [asked]

end Player

end SitNChow
