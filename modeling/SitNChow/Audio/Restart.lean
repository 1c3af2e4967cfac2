/-
Restarting the player: what a call of `audio_player_start` may rely on
when a playback is already under way.

# The last request

One task makes all calls. Each call hands over a pointer of its own (its
number stands beside it), so that a playback of an earlier request shows.
`returned` holds from the return of a start call to the next call, and
`finished` from the output of the request's last sample.

# Who clears the flag

A start sets `s_playing` and the playback clears it after its loop. A
call that finds the player busy stops it and pauses for 5 ms; a call made
right after a stop does not pause. When the old playback is still in its
loop, or past it and not yet at the semaphore, its clear falls after the
new set: `NothingOlder` is the condition that it is neither, and
`restart_honoured` that it is then the last request that is played to its
end.
-/
import SitNChow.Audio.Player

namespace SitNChow

open Kit

universe v

-- ============================================================ the system

/-- The player with one calling task, its last request, whether the call
that made it has returned with no call begun since, and whether its last
sample has been output. -/
structure Restart (π : Type v) where
  player : Player Unit (Nat × π)
  request : Option ((Nat × π) × Nat)
  returned : Bool
  finished : Bool

/-- The steps of the two tasks. -/
inductive RestartAction (π : Type v) where
  | playback
  | start (samples : π) (count : Nat)
  | call
  | stop

namespace Restart

variable {π : Type v}

/-- The next step of the playback outputs the last sample of the
request. -/
def outputsLast [DecidableEq π] (s : Restart π) : Bool :=
  match s.player.task with
  | .out p _ i => decide (s.request = some (p, i + 1))
  | _ => false

/-- A step of `audio_playback_task`. -/
def playback [DecidableEq π] (s : Restart π) : Option (Restart π) :=
  s.player.playback.map fun p =>
    { s with player := p, finished := s.finished || s.outputsLast }

/-- The task calls `audio_player_start` with a buffer that is not
empty. -/
def start (samples : π) (count : Nat) (s : Restart π) : Option (Restart π) :=
  let tagged := (s.player.calls.length, samples)
  if 0 < count then
    (s.player.start () tagged count).map fun p =>
      { player := p, request := some (tagged, count), returned := false
        finished := false }
  else none

/-- A step of that call; `give` is its last. -/
def call (s : Restart π) : Option (Restart π) :=
  (s.player.call ()).map fun p =>
    { s with player := p
             returned := match s.player.caller () with
               | .give => true
               | _ => s.returned }

/-- The task calls `audio_player_stop`. -/
def stop (s : Restart π) : Option (Restart π) :=
  match s.player.caller () with
  | .idle => some { s with player := s.player.stop, returned := false }
  | _ => none

end Restart

/-- The system as a machine. -/
def restart (π : Type v) [DecidableEq π] :
    Machine (Restart π) (RestartAction π) where
  init := { player := Player.init, request := none, returned := false
            finished := false }
  apply
    | .playback, s => s.playback
    | .start samples count, s => s.start samples count
    | .call, s => s.call
    | .stop, s => s.stop

-- ========================================================== the property

section Restart

variable {π : Type v} {s s' : Restart π} {a : RestartAction π}

/-- From the return of a start call to the next call, the flag is set
until the request's last sample is output. -/
def Honoured (s : Restart π) : Prop :=
  s.returned = true → s.finished = false → s.player.playing = true

/-- The playback is about to play the pair, or plays it, with samples
still to output. -/
def PlaybackPc.Serves (r : (Nat × π) × Nat) : PlaybackPc (Nat × π) → Prop
  | .take | .readSamples => True
  | .readCount samples => samples = some r.1
  | .check samples count => samples = some r.1 ∧ count = r.2
  | .loop samples count i | .out samples count i =>
      samples = r.1 ∧ count = r.2 ∧ i < count
  | .clear => False

/-- A call sets the flag while the playback has nothing older than the
call's own request: it is at the semaphore or at its reads, or has read
the new pair and output nothing of it. -/
def NothingOlder (s : Restart π) (a : RestartAction π) : Prop :=
  a = .call → s.player.caller () = .setPlaying →
    ∀ r, s.request = some r → s.player.task.Serves r

/-- The invariant: a call carries the last request, which is written when
the call comes to the flag; from then on, until the next call begins, the
flag is set and the playback serves that request unless it is finished. -/
structure Serving (s : Restart π) : Prop where
  positive : ∀ r, s.request = some r → 0 < r.2
  args : ∀ r, (s.player.caller ()).args = some r → s.request = some r
  pointer : ∀ p n, s.player.caller () = .setCount p n →
    s.player.samples = some p
  written : s.player.caller () = .setPlaying ∨ s.player.caller () = .give
      ∨ s.returned = true →
    ∃ p, s.player.samples = some p ∧ s.request = some (p, s.player.sampleCount)
  serves : s.player.caller () = .give ∨ s.returned = true →
    s.finished = false → s.player.playing = true
      ∧ ∀ r, s.request = some r → s.player.task.Serves r
  back : s.returned = true → s.player.caller () = .idle

/-- Before the first call nothing is promised. -/
theorem serving_init [DecidableEq π] : Serving (restart π).init where
  positive := fun _ h => nomatch h
  args := fun _ h => nomatch h
  pointer := fun _ _ h => nomatch h
  written := fun h => by rcases h with h | h | h <;> cases h
  serves := fun h => by rcases h with h | h <;> cases h
  back := fun h => nomatch h

/-- A playback that serves the pair in the module state, with the flag
set, goes on serving it until it outputs the last sample. -/
theorem Player.playback_serves {p p' : Player Unit (Nat × π)}
    {r : (Nat × π) × Nat} (h : p.playback = some p')
    (hplaying : p.playing = true) (hsamples : p.samples = some r.1)
    (hcount : p.sampleCount = r.2) (hpos : 0 < r.2) (hs : p.task.Serves r)
    (hlast : ∀ n i, p.task = .out r.1 n i → i + 1 ≠ r.2) :
    p'.playing = true ∧ p'.task.Serves r := by
  unfold Player.playback at h
  split at h
  · split at h
    · obtain rfl := Option.some.inj h
      exact ⟨hplaying, trivial⟩
    · cases h
  · obtain rfl := Option.some.inj h
    exact ⟨hplaying, hsamples⟩
  · next samples ht =>
    obtain rfl := Option.some.inj h
    rw [ht] at hs
    exact ⟨hplaying, hs, hcount⟩
  · next samples count ht =>
    rw [ht] at hs
    obtain ⟨rfl, rfl⟩ := hs
    dsimp only at h
    rw [if_neg (Nat.ne_of_gt hpos)] at h
    obtain rfl := Option.some.inj h
    exact ⟨hplaying, rfl, rfl, hpos⟩
  · next q count i ht =>
    obtain rfl := Option.some.inj h
    rw [ht] at hs
    refine ⟨hplaying, ?_⟩
    rw [if_pos ⟨hs.2.2, hplaying⟩]
    exact hs
  · next q count i ht =>
    obtain rfl := Option.some.inj h
    rw [ht] at hs
    obtain ⟨rfl, rfl, hlt⟩ := hs
    have := hlast _ _ ht
    exact ⟨hplaying, rfl, rfl, by omega⟩
  · next ht =>
    rw [ht] at hs
    cases hs

/-- The playback goes on serving until it outputs the last sample. -/
theorem Serving.playback [DecidableEq π] (h : Serving s)
    (happ : s.playback = some s') :
    Serving s' := by
  obtain ⟨p, hp, rfl⟩ := Option.map_eq_some_iff.mp happ
  obtain ⟨hsamples, hcount, hcaller, -⟩ := Player.playback_frame hp
  refine ⟨h.positive, ?_, ?_, ?_, ?_, ?_⟩
  · intro r hr
    rw [hcaller] at hr
    exact h.args r hr
  · intro q n hq
    rw [hcaller] at hq
    rw [hsamples]
    exact h.pointer q n hq
  · intro hplace
    rw [hcaller] at hplace
    obtain ⟨q, hq, hr⟩ := h.written hplace
    exact ⟨q, by rw [hsamples, hq], by rw [hr, hcount]⟩
  · intro hplace hfin
    rw [hcaller] at hplace
    obtain ⟨hfin, hlast⟩ := Bool.or_eq_false_iff.mp hfin
    obtain ⟨hplaying, hserves⟩ := h.serves hplace hfin
    obtain ⟨q, hq, hr⟩ := h.written (.inr hplace)
    have hkeep := Player.playback_serves hp hplaying hq rfl (h.positive _ hr)
      (hserves _ hr) fun n i ht heq => by
        -- this would be the last sample
        simp only [Restart.outputsLast, ht, hr, heq] at hlast
        simp at hlast
    refine ⟨hkeep.1, fun r' hr' => ?_⟩
    obtain rfl := Option.some.inj (hr.symm.trans hr')
    exact hkeep.2
  · intro hret
    rw [hcaller]
    exact h.back hret

/-- A call begins: nothing is promised until it has set the flag. -/
theorem Serving.of_start {samples : π} {count : Nat}
    (happ : s.start samples count = some s') : Serving s' := by
  simp only [Restart.start] at happ
  split at happ
  · next hpos =>
    obtain ⟨p, hp, rfl⟩ := Option.map_eq_some_iff.mp happ
    unfold Player.start at hp
    split at hp
    · obtain rfl := Option.some.inj hp
      refine ⟨?_, ?_, ?_, ?_, ?_, ?_⟩
      · intro r hr
        obtain rfl := Option.some.inj hr
        exact hpos
      · intro r hr
        simpa [Player.setCaller, CallPc.args] using hr
      · intro q n hq
        simp [Player.setCaller] at hq
      · intro hplace
        simp [Player.setCaller] at hplace
      · intro hplace
        simp [Player.setCaller] at hplace
      · intro hret
        cases hret
    · cases hp
  · cases happ

/-- A stop promises nothing. -/
theorem Serving.stop (h : Serving s) (happ : s.stop = some s') :
    Serving s' := by
  unfold Restart.stop at happ
  split at happ
  · next hidle =>
    obtain rfl := Option.some.inj happ
    refine ⟨h.positive, ?_, ?_, ?_, ?_, ?_⟩
    · intro r hr
      have hr : (s.player.caller ()).args = some r := hr
      rw [hidle] at hr
      cases hr
    · intro q n hq
      have hq : s.player.caller () = .setCount q n := hq
      rw [hidle] at hq
      cases hq
    · rintro (hp | hp | hp)
      · exact absurd (hidle.symm.trans hp) (by simp)
      · exact absurd (hidle.symm.trans hp) (by simp)
      · cases hp
    · rintro (hp | hp)
      · exact absurd (hidle.symm.trans hp) (by simp)
      · cases hp
    · intro hret
      cases hret
  · cases happ

/-- A call that comes to a place before its flag is set carries the last
request there; nothing is promised yet. -/
theorem Serving.before (h : Serving s) {p : Player Unit (Nat × π)}
    {pc : CallPc (Nat × π)} (hgive : pc ≠ .give) (hret : s.returned = false)
    (hargs : ∀ r, pc.args = some r → s.request = some r)
    (hptr : ∀ q n, pc = .setCount q n → p.samples = some q)
    (hwritten : pc = .setPlaying →
      ∃ q, p.samples = some q ∧ s.request = some (q, p.sampleCount)) :
    Serving { s with player := p.setCaller () pc, returned := s.returned } := by
  have hpc : (p.setCaller () pc).caller () = pc := by
    simp [Player.setCaller]
  refine ⟨h.positive, ?_, ?_, ?_, ?_, ?_⟩
  · show ∀ r, ((p.setCaller () pc).caller ()).args = some r → _
    rw [hpc]
    exact hargs
  · show ∀ q n, (p.setCaller () pc).caller () = .setCount q n → _
    rw [hpc]
    exact hptr
  · show (p.setCaller () pc).caller () = .setPlaying
      ∨ (p.setCaller () pc).caller () = .give ∨ s.returned = true → _
    rw [hpc, hret]
    rintro (hset | hg | hr)
    · exact hwritten hset
    · exact absurd hg hgive
    · cases hr
  · show (p.setCaller () pc).caller () = .give ∨ s.returned = true → _
    rw [hpc, hret]
    rintro (hg | hr)
    · exact absurd hg hgive
    · cases hr
  · show s.returned = true → _
    rw [hret]
    intro hr
    cases hr

/-- A call's step; the one that sets the flag must meet the guard. -/
theorem Serving.call (h : Serving s) (hg : NothingOlder s .call)
    (happ : s.call = some s') : Serving s' := by
  obtain ⟨p, hp, rfl⟩ := Option.map_eq_some_iff.mp happ
  have hret : s.player.caller () ≠ .idle → s.returned = false := by
    intro hne
    cases hr : s.returned with
    | false => rfl
    | true => exact absurd (h.back hr) hne
  unfold Player.call at hp
  cases hc : s.player.caller () with
  | idle =>
      rw [hc] at hp
      cases hp
  | test samples count =>
      rw [hc] at hp
      obtain rfl := Option.some.inj hp
      have hreq := h.args _ (by rw [hc]; rfl)
      have hret := hret (by rw [hc]; simp)
      -- to the stop, or past it
      cases s.player.playing with
      | true =>
          exact h.before (by simp) hret (fun _ hr => hr ▸ hreq) (by simp)
            (by simp)
      | false =>
          exact h.before (by simp) hret (fun _ hr => hr ▸ hreq) (by simp)
            (by simp)
  | stop samples count =>
      rw [hc] at hp
      obtain rfl := Option.some.inj hp
      have hreq := h.args _ (by rw [hc]; rfl)
      have hret := hret (by rw [hc]; simp)
      exact h.before (by simp) hret (fun _ hr => hr ▸ hreq) (by simp)
        (by simp)
  | setSamples samples count =>
      rw [hc] at hp
      obtain rfl := Option.some.inj hp
      have hreq := h.args _ (by rw [hc]; rfl)
      have hret := hret (by rw [hc]; simp)
      refine h.before (by simp) hret (fun _ hr => hr ▸ hreq)
        (fun q n heq => ?_) (by simp)
      obtain ⟨rfl, -⟩ := CallPc.setCount.inj heq
      rfl
  | setCount samples count =>
      rw [hc] at hp
      obtain rfl := Option.some.inj hp
      have hreq := h.args _ (by rw [hc]; rfl)
      have hret := hret (by rw [hc]; simp)
      exact h.before (by simp) hret (fun _ hr => nomatch hr) (by simp)
        fun _ => ⟨samples, h.pointer _ _ hc, hreq⟩
  | setPlaying =>
      rw [hc] at hp
      obtain rfl := Option.some.inj hp
      have hw := h.written (.inl hc)
      have hret := hret (by rw [hc]; simp)
      have hserves := hg rfl hc
      refine ⟨h.positive, ?_, ?_, fun _ => hw, fun _ _ => ⟨rfl, hserves⟩, ?_⟩
      · simp [Player.setCaller, CallPc.args]
      · simp [Player.setCaller]
      · simp [hret]
  | give =>
      rw [hc] at hp
      obtain rfl := Option.some.inj hp
      have hw := h.written (.inr (.inl hc))
      have hserves := h.serves (.inl hc)
      refine ⟨h.positive, ?_, ?_, fun _ => hw, fun _ => hserves, ?_⟩
      · simp [Player.setCaller, CallPc.args]
      · simp [Player.setCaller]
      · simp [Player.setCaller]

variable [DecidableEq π]

/-- In every run in which no call sets the flag while an older playback
is in its loop or at its clear, the flag stays set from the call's return
to the output of its request's last sample, unless the next call
begins. -/
theorem restart_honoured (hr : (restart π).ReachableBy NothingOlder s) :
    Honoured s := by
  have h := hr.invariant (I := Serving) serving_init fun s a s' h hg happ => by
    cases a with
    | playback => exact h.playback happ
    | start samples count => exact Serving.of_start happ
    | call => exact h.call hg happ
    | stop => exact h.stop happ
  exact fun hret hfin => (h.serves (.inr hret) hfin).1

end Restart

instance {π : Type v} [DecidableEq π] (r : (Nat × π) × Nat) :
    DecidablePred (PlaybackPc.Serves r)
  | .take | .readSamples => .isTrue trivial
  | .readCount samples => inferInstanceAs (Decidable (samples = some r.1))
  | .check samples count =>
      inferInstanceAs (Decidable (samples = some r.1 ∧ count = r.2))
  | .loop samples count i | .out samples count i =>
      inferInstanceAs (Decidable (samples = r.1 ∧ count = r.2 ∧ i < count))
  | .clear => .isFalse id

instance {π : Type v} [DecidableEq π] (s : Restart π) :
    DecidablePred (NothingOlder s)
  | .call =>
      decidable_of_iff (s.player.caller () = .setPlaying →
          ∀ r ∈ s.request, s.player.task.Serves r)
        ⟨fun h _ => h, fun h => h rfl⟩
  | .playback | .start _ _ | .stop => .isTrue fun h => nomatch h

/-- A request is played to its end, and a second one up to its first
sample's output. -/
def playedThenStarted : List (RestartAction Unit) :=
  .start () 1 :: List.replicate 5 .call ++ List.replicate 8 .playback
    ++ .start () 2 :: List.replicate 5 .call ++ List.replicate 6 .playback

/-- The second start's flag is still set. -/
theorem restart_honoured_second :
    ∃ s : Restart Unit, s.request = some ((1, ()), 2) ∧ s.returned = true
      ∧ s.finished = false ∧ Honoured s := by
  have hrun : ((restart Unit).runBy NothingOlder (restart Unit).init
      playedThenStarted).map (fun s => (s.request, s.returned, s.finished))
      = some (some ((1, ()), 2), true, false) := by decide
  obtain ⟨s, hs, heq⟩ := Option.map_eq_some_iff.mp hrun
  simp only [Prod.mk.injEq] at heq
  exact ⟨s, heq.1, heq.2.1, heq.2.2,
    restart_honoured (Machine.ReachableBy.init.runBy hs)⟩

/-- A call is made during a playback; the playback is past its loop when
the call sets the flag, and clears it after the call has returned. -/
def clearAfterSet : List (RestartAction Unit) :=
  .start () 2 :: List.replicate 5 .call ++ List.replicate 5 .playback
    ++ [.start () 2, .call, .call, .playback, .playback, .call, .call, .call,
      .call, .playback]

/-- A playback is stopped and a call made at once, without the pause: the
old loop goes on, and clears the flag at its end. -/
def restartAtOnce : List (RestartAction Unit) :=
  .start () 2 :: List.replicate 5 .call ++ List.replicate 5 .playback
    ++ .stop :: .start () 2 :: List.replicate 5 .call
    ++ List.replicate 5 .playback

/-- In both runs the request has been handed over and not played, no call
has begun since, and the flag is clear. -/
theorem older_playback_clears :
    ∃ s t, (restart Unit).run (restart Unit).init clearAfterSet = some s
      ∧ (restart Unit).run (restart Unit).init restartAtOnce = some t
      ∧ ¬ Honoured s ∧ ¬ Honoured t := by
  have hs : ((restart Unit).run (restart Unit).init clearAfterSet).map
      (fun s => (s.returned, s.finished, s.player.playing))
      = some (true, false, false) := by decide
  have ht : ((restart Unit).run (restart Unit).init restartAtOnce).map
      (fun s => (s.returned, s.finished, s.player.playing))
      = some (true, false, false) := by decide
  have hbroken : ∀ s : Restart Unit,
      (s.returned, s.finished, s.player.playing) = (true, false, false) →
      ¬ Honoured s := by
    intro s heq h
    simp only [Prod.mk.injEq] at heq
    have := h heq.1 heq.2.1
    rw [heq.2.2] at this
    cases this
  obtain ⟨s, hs, hs'⟩ := Option.map_eq_some_iff.mp hs
  obtain ⟨t, ht, ht'⟩ := Option.map_eq_some_iff.mp ht
  exact ⟨s, t, hs, ht, hbroken s hs', hbroken t ht'⟩

end SitNChow
