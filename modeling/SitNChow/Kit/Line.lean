/-
A shared line with several drivers: parties that each switch the line on
when they start driving and off when they stop, without asking whether
somebody else is driving it.

As long as no two parties drive at once, the line is on exactly while
somebody drives (`Tracks`), and the only step that can end this is a
party that starts driving while the line is on (`Sole.clash`). So "start
only when the line is off" is the exact condition under which exclusion
survives (`Sole.step`).
-/
import Mathlib.Tactic.Common

namespace Kit.Line

universe u

variable {ι : Type u}

/-- No two parties drive. -/
def Sole (drives : ι → Bool) : Prop :=
  ∀ i j, drives i = true → drives j = true → i = j

/-- The line is on exactly while some party drives. -/
def Tracks (drives : ι → Bool) (on : Bool) : Prop :=
  on = true ↔ ∃ i, drives i = true

/-- What one step does to its own party and to the line: the party
starts driving and switches the line on, stops and switches it off, or
leaves both alone. -/
inductive Move : (drives drives' on on' : Bool) → Prop
  | take {on : Bool} : Move false true on true
  | drop {on : Bool} : Move true false on false
  | keep {d on : Bool} : Move d d on on

variable {drives drives' : ι → Bool} {on on' : Bool} {i : ι}

/-- A step keeps exclusion and tracking, provided that it starts driving
only when the line is off. -/
theorem Sole.step (hs : Sole drives) (ht : Tracks drives on)
    (hother : ∀ j, j ≠ i → drives' j = drives j)
    (hm : Move (drives i) (drives' i) on on')
    (hfree : drives i = false → drives' i = true → on = false) :
    Sole drives' ∧ Tracks drives' on' := by
  have honly : ∀ j, drives' j = true → j = i ∨ (j ≠ i ∧ drives j = true) := by
    intro j hj
    by_cases hji : j = i
    · exact .inl hji
    · exact .inr ⟨hji, by rw [← hother j hji, hj]⟩
  generalize hd : drives i = d at hm
  generalize hd' : drives' i = d' at hm
  cases hm with
  | take =>
      -- nobody drives, so the party is alone afterwards
      have hnone : ∀ j, drives j = false := by
        intro j
        cases hj : drives j with
        | false => rfl
        | true =>
            have := hfree hd hd'
            rw [ht.mpr ⟨j, hj⟩] at this
            cases this
      have hi : ∀ j, drives' j = true → j = i := by
        intro j hj
        rcases honly j hj with rfl | ⟨-, hj⟩
        · rfl
        · rw [hnone j] at hj
          cases hj
      exact ⟨fun j k hj hk => (hi j hj).trans (hi k hk).symm,
        ⟨fun _ => ⟨i, hd'⟩, fun _ => rfl⟩⟩
  | drop =>
      -- the party was alone, so nobody drives afterwards
      have hnone : ∀ j, drives' j = true → False := by
        intro j hj
        rcases honly j hj with rfl | ⟨hji, hj⟩
        · rw [hd'] at hj
          cases hj
        · exact hji (hs j i hj hd)
      exact ⟨fun j _ hj => (hnone j hj).elim,
        ⟨fun h => (nomatch h), fun ⟨j, hj⟩ => (hnone j hj).elim⟩⟩
  | keep =>
      have hsame : ∀ j, drives' j = drives j := by
        intro j
        by_cases hji : j = i
        · rw [hji, hd, hd']
        · exact hother j hji
      refine ⟨fun j k hj hk => hs j k ?_ ?_, ?_⟩
      · rw [← hsame, hj]
      · rw [← hsame, hk]
      · simpa only [Tracks, hsame] using ht

/-- A party that starts driving while the line is on is the second
one. -/
theorem Sole.clash (ht : Tracks drives on)
    (hother : ∀ j, j ≠ i → drives' j = drives j)
    (hi : drives i = false) (hi' : drives' i = true) (hon : on = true) :
    ¬ Sole drives' := by
  intro hs
  obtain ⟨j, hj⟩ := ht.mp hon
  have hji : j ≠ i := by
    intro he
    rw [he, hi] at hj
    cases hj
  exact hji (hs j i (by rw [hother j hji, hj]) hi')

end Kit.Line
