/-
Debouncing by counting: a counter that goes up on every good element and
back to zero on every other one, and runs of consecutive good elements.

The counter is the length of the longest good suffix (`le_streak_iff`),
so a list has `n` good elements in a row exactly when the counter reaches
`n` on one of its prefixes (`hasRun_iff`). An element that is not good
divides the runs of the list (`hasRun_append_cons`).
-/
import Mathlib.Data.List.Infix
import Mathlib.Tactic.Common

namespace Kit.Streak

universe u

variable {α : Type u} (p : α → Bool)

/-- One step of the counter. -/
def count (c : Nat) (x : α) : Nat := if p x then c + 1 else 0

/-- The counter after a list. -/
def streak (xs : List α) : Nat := xs.foldl (count p) 0

/-- `n` good elements in a row. -/
def HasRun (n : Nat) (xs : List α) : Prop :=
  ∃ w, w <:+: xs ∧ w.length = n ∧ ∀ x ∈ w, p x = true

variable {p} {x : α} {xs ys : List α} {n : Nat}

theorem streak_concat_good (xs : List α) (hx : p x = true) :
    streak p (xs ++ [x]) = streak p xs + 1 := by
  simp [streak, count, hx]

/-- A bad element forgets what came before it. -/
theorem streak_append_cons (hx : p x = false) :
    streak p (xs ++ x :: ys) = streak p ys := by
  simp [streak, count, hx]

/-- The counter is the length of the longest good suffix. -/
theorem le_streak_iff :
    n ≤ streak p xs ↔ ∃ w, w <:+ xs ∧ w.length = n ∧ ∀ x ∈ w, p x = true := by
  induction xs using List.reverseRecOn generalizing n with
  | nil =>
      constructor
      · intro h
        obtain rfl : n = 0 := Nat.le_zero.mp h
        exact ⟨[], List.suffix_rfl, rfl, fun _ h => nomatch h⟩
      · rintro ⟨w, hw, rfl, -⟩
        rw [List.suffix_nil.mp hw]
        exact Nat.le_refl _
  | append_singleton xs x ih =>
      cases n with
      | zero =>
          refine ⟨fun _ => ?_, fun _ => Nat.zero_le _⟩
          exact ⟨[], List.nil_suffix, rfl, fun _ h => nomatch h⟩
      | succ n =>
          by_cases hx : p x = true
          · rw [streak_concat_good xs hx, Nat.succ_le_succ_iff, ih]
            constructor
            · rintro ⟨w, hsuf, rfl, hw⟩
              refine ⟨w ++ [x], List.suffix_concat_iff.mpr (.inr ⟨w, rfl, hsuf⟩),
                by simp, fun y hy => ?_⟩
              rcases List.mem_append.mp hy with hy | hy
              · exact hw y hy
              · rw [List.mem_singleton.mp hy]
                exact hx
            · rintro ⟨w, hsuf, hlen, hw⟩
              rcases List.suffix_concat_iff.mp hsuf with rfl | ⟨v, rfl, hv⟩
              · cases hlen
              · exact ⟨v, hv, by simpa using hlen,
                  fun z hz => hw z (List.mem_append_left _ hz)⟩
          · -- a good suffix does not end with a bad element
            rw [streak_append_cons (Bool.eq_false_iff.mpr hx)]
            refine ⟨fun h => absurd h (Nat.not_succ_le_zero n), ?_⟩
            rintro ⟨w, hsuf, hlen, hw⟩
            rcases List.suffix_concat_iff.mp hsuf with rfl | ⟨v, rfl, -⟩
            · cases hlen
            · exact absurd (hw x (by simp)) hx

/-- A run is completed where the counter reaches its length. -/
theorem hasRun_iff : HasRun p n xs ↔ ∃ ys, ys <+: xs ∧ n ≤ streak p ys := by
  constructor
  · rintro ⟨w, ⟨pre, post, rfl⟩, hlen, hw⟩
    exact ⟨pre ++ w, List.prefix_append _ _,
      le_streak_iff.mpr ⟨w, List.suffix_append _ _, hlen, hw⟩⟩
  · rintro ⟨ys, hpre, hle⟩
    obtain ⟨w, hsuf, hlen, hw⟩ := le_streak_iff.mp hle
    exact ⟨w, hsuf.isInfix.trans hpre.isInfix, hlen, hw⟩

/-- One more element completes a run at its end or not at all. -/
theorem hasRun_concat :
    HasRun p n (xs ++ [x]) ↔ HasRun p n xs ∨ n ≤ streak p (xs ++ [x]) := by
  rw [hasRun_iff, hasRun_iff]
  constructor
  · rintro ⟨ys, hpre, hle⟩
    rcases List.prefix_concat_iff.mp hpre with rfl | hpre
    · exact .inr hle
    · exact .inl ⟨ys, hpre, hle⟩
  · rintro (⟨ys, hpre, hle⟩ | hle)
    · exact ⟨ys, hpre.trans (List.prefix_append _ _), hle⟩
    · exact ⟨_, List.prefix_rfl, hle⟩

/-- A good element completes a run when the counter reaches its length. -/
theorem hasRun_concat_good (hx : p x = true) :
    HasRun p n (xs ++ [x]) ↔ HasRun p n xs ∨ n ≤ streak p xs + 1 := by
  rw [hasRun_concat, streak_concat_good xs hx]

/-- A bad element completes none. -/
theorem hasRun_concat_bad (hx : p x = false) :
    HasRun p n (xs ++ [x]) ↔ HasRun p n xs := by
  rw [hasRun_concat, streak_append_cons hx]
  refine ⟨fun h => ?_, .inl⟩
  rcases h with hrun | hle
  · exact hrun
  · exact hasRun_iff.mpr ⟨[], List.nil_prefix, hle⟩

/-- No run goes across a bad element. -/
theorem hasRun_append_cons (hx : p x = false) :
    HasRun p n (xs ++ x :: ys) ↔ HasRun p n xs ∨ HasRun p n ys := by
  simp only [hasRun_iff]
  constructor
  · rintro ⟨zs, ⟨post, hpost⟩, hle⟩
    rcases List.append_eq_append_iff.mp hpost with
      ⟨us, rfl, -⟩ | ⟨us, rfl, hus⟩
    · exact .inl ⟨zs, List.prefix_append _ _, hle⟩
    · cases us with
      | nil => exact .inl ⟨xs, List.prefix_rfl, by simpa using hle⟩
      | cons u us =>
          obtain ⟨rfl, rfl⟩ := List.cons.inj hus
          rw [streak_append_cons hx] at hle
          exact .inr ⟨us, List.prefix_append _ _, hle⟩
  · rintro (⟨zs, hpre, hle⟩ | ⟨zs, hpre, hle⟩)
    · exact ⟨zs, hpre.trans (List.prefix_append _ _), hle⟩
    · refine ⟨xs ++ x :: zs, ?_, by rwa [streak_append_cons hx]⟩
      exact (List.prefix_append_right_inj _).mpr
        (List.cons_prefix_cons.mpr ⟨rfl, hpre⟩)

end Kit.Streak
