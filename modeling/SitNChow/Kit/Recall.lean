/-
The one-slot recall filter: a stream of observations, some of which
carry a key, is let through except where the key repeats the key let
through last.

# What is general here

A component that suppresses repeats with a single remembered value
("already handled this one") computes exactly `pass`: the slot holds the
key of the latest keyed observation, whether or not that observation got
through (`slot`). Everything such a component lets through or swallows
is therefore decided by the latest keyed predecessor, `Fresh`, and the
two questions one asks of it have closed answers:

- `pass_pairwise_iff`: which pairs of observations can both get through;
- `exists_fresh`: a key missing from the slot gets through when it comes;
- `mem_pass_sorted_iff`: over a sorted stream, when a given point gets
  through at all — its latest keyed predecessor must have another key.
-/
import Mathlib.Order.Lattice
import Mathlib.Data.List.Basic

namespace Kit.Recall

universe u v

variable {ι : Type u} {κ : Type v} (obs : ι → Option κ)

/-- What the slot holds after the observations `xs`: the key of the
latest keyed one. -/
def slot : Option κ → List ι → Option κ
  | last, [] => last
  | last, x :: xs =>
      match obs x with
      | none => slot last xs
      | some k => slot (some k) xs

/-- The observations that get through. -/
def pass [DecidableEq κ] : Option κ → List ι → List ι
  | _, [] => []
  | last, x :: xs =>
      match obs x with
      | none => pass last xs
      | some k =>
          if last = some k then pass last xs else x :: pass (some k) xs

/-- An observation made after `pre` carries a key other than the one the
slot then holds. -/
def Fresh (last : Option κ) (pre : List ι) (x : ι) : Prop :=
  ∃ k, obs x = some k ∧ slot obs last pre ≠ some k

variable {obs} {last : Option κ} {x : ι} {xs : List ι} {k : κ}

-- ==================================================== step equations

@[simp] theorem slot_nil : slot obs last [] = last := rfl

theorem slot_cons_none (h : obs x = none) :
    slot obs last (x :: xs) = slot obs last xs := by
  simp [slot, h]

theorem slot_cons_some (h : obs x = some k) :
    slot obs last (x :: xs) = slot obs (some k) xs := by
  simp [slot, h]

/-- The slot after two stretches is the slot of the second started from
the slot of the first. -/
theorem slot_append (xs ys : List ι) :
    slot obs last (xs ++ ys) = slot obs (slot obs last xs) ys := by
  induction xs generalizing last with
  | nil => rfl
  | cons x xs ih =>
      rw [List.cons_append]
      cases hx : obs x with
      | none => rw [slot_cons_none hx, slot_cons_none hx, ih]
      | some k => rw [slot_cons_some hx, slot_cons_some hx, ih]

/-- A key in the slot is either the one it started with, no keyed
observation having come since, or the key of the latest keyed
observation. -/
theorem slot_eq_some_iff :
    slot obs last xs = some k ↔
      (last = some k ∧ ∀ y ∈ xs, obs y = none)
        ∨ ∃ pre x post, xs = pre ++ x :: post ∧ obs x = some k
            ∧ ∀ y ∈ post, obs y = none := by
  induction xs generalizing last with
  | nil => simp
  | cons a xs ih =>
      cases ha : obs a with
      | none =>
          rw [slot_cons_none ha, ih]
          refine ⟨fun h => ?_, fun h => ?_⟩
          · obtain ⟨hl, hn⟩ | ⟨pre, x, post, rfl, hx, hp⟩ := h
            · exact .inl ⟨hl, by simpa [ha] using hn⟩
            · exact .inr ⟨a :: pre, x, post, rfl, hx, hp⟩
          · obtain ⟨hl, hn⟩ | ⟨pre, x, post, he, hx, hp⟩ := h
            · exact .inl ⟨hl, fun y hy => hn y (List.mem_cons_of_mem _ hy)⟩
            · cases pre with
              | nil =>
                  rw [List.nil_append, List.cons.injEq] at he
                  rw [he.1, hx] at ha
                  cases ha
              | cons b pre =>
                  rw [List.cons_append, List.cons.injEq] at he
                  exact .inr ⟨pre, x, post, he.2, hx, hp⟩
      | some k' =>
          rw [slot_cons_some ha, ih]
          refine ⟨fun h => ?_, fun h => ?_⟩
          · obtain ⟨hl, hn⟩ | ⟨pre, x, post, rfl, hx, hp⟩ := h
            · exact .inr ⟨[], a, xs, rfl, by rw [ha, hl], hn⟩
            · exact .inr ⟨a :: pre, x, post, rfl, hx, hp⟩
          · obtain ⟨-, hn⟩ | ⟨pre, x, post, he, hx, hp⟩ := h
            · have := hn a List.mem_cons_self
              rw [ha] at this
              cases this
            · cases pre with
              | nil =>
                  rw [List.nil_append, List.cons.injEq] at he
                  obtain ⟨rfl, rfl⟩ := he
                  exact .inl ⟨by rw [← ha, hx], hp⟩
              | cons b pre =>
                  rw [List.cons_append, List.cons.injEq] at he
                  exact .inr ⟨pre, x, post, he.2, hx, hp⟩

/-- Observations that carry the slot's own key, or none, leave it. -/
theorem slot_stay (h : ∀ y ∈ xs, obs y = none ∨ obs y = some k) :
    slot obs (some k) xs = some k := by
  induction xs with
  | nil => rfl
  | cons y xs ih =>
      have hrest := ih fun z hz => h z (List.mem_cons_of_mem _ hz)
      rcases h y List.mem_cons_self with hy | hy
      · rw [slot_cons_none hy, hrest]
      · rw [slot_cons_some hy, hrest]

variable [DecidableEq κ]

@[simp] theorem pass_nil : pass obs last [] = [] := rfl

theorem pass_cons_none (h : obs x = none) :
    pass obs last (x :: xs) = pass obs last xs := by
  simp [pass, h]

theorem pass_cons_repeat (h : obs x = some k) :
    pass obs (some k) (x :: xs) = pass obs (some k) xs := by
  simp [pass, h]

theorem pass_cons_fresh (h : obs x = some k) (hl : last ≠ some k) :
    pass obs last (x :: xs) = x :: pass obs (some k) xs := by
  simp [pass, h, hl]

/-- What gets through two stretches is what gets through each, the
second started from the slot of the first. -/
theorem pass_append (xs ys : List ι) :
    pass obs last (xs ++ ys)
      = pass obs last xs ++ pass obs (slot obs last xs) ys := by
  induction xs generalizing last with
  | nil => rfl
  | cons x xs ih =>
      rw [List.cons_append]
      cases hx : obs x with
      | none => rw [pass_cons_none hx, pass_cons_none hx, slot_cons_none hx, ih]
      | some k =>
          rw [slot_cons_some hx]
          by_cases hl : last = some k
          · subst hl
            rw [pass_cons_repeat hx, pass_cons_repeat hx, ih]
          · rw [pass_cons_fresh hx hl, pass_cons_fresh hx hl, ih,
              List.cons_append]

-- ============================================== what gets through

/-- An observation gets through exactly at its fresh occurrences. -/
theorem mem_pass_iff {b : ι} :
    b ∈ pass obs last xs ↔
      ∃ pre post, xs = pre ++ b :: post ∧ Fresh obs last pre b := by
  refine ⟨fun hb => ?_, fun h => ?_⟩
  · induction xs generalizing last with
    | nil => simp at hb
    | cons x xs ih =>
        cases hx : obs x with
        | none =>
            rw [pass_cons_none hx] at hb
            obtain ⟨pre, post, rfl, k, hk, hs⟩ := ih hb
            exact ⟨x :: pre, post, rfl, k, hk, by rwa [slot_cons_none hx]⟩
        | some k =>
            by_cases hl : last = some k
            · rw [hl, pass_cons_repeat hx] at hb
              obtain ⟨pre, post, rfl, k', hk, hs⟩ := ih hb
              exact ⟨x :: pre, post, rfl, k', hk, by rwa [slot_cons_some hx]⟩
            · rw [pass_cons_fresh hx hl] at hb
              rcases List.mem_cons.mp hb with rfl | hb
              · exact ⟨[], xs, rfl, k, hx, hl⟩
              · obtain ⟨pre, post, rfl, k', hk, hs⟩ := ih hb
                exact ⟨x :: pre, post, rfl, k', hk,
                  by rwa [slot_cons_some hx]⟩
  · obtain ⟨pre, post, rfl, k, hk, hs⟩ := h
    rw [pass_append, pass_cons_fresh hk hs]
    simp

/-- A relation holds between every two observations that get through
exactly when it holds between every two fresh occurrences. -/
theorem pass_pairwise_iff {R : ι → ι → Prop} :
    (pass obs last xs).Pairwise R ↔
      ∀ pre a mid b post, xs = pre ++ a :: (mid ++ b :: post) →
        Fresh obs last pre a → Fresh obs last (pre ++ a :: mid) b → R a b := by
  refine ⟨fun hp => ?_, fun h => ?_⟩
  · intro pre a mid b post hxs hfa hfb
    obtain ⟨k, hk, hs⟩ := hfa
    obtain ⟨k', hk', hs'⟩ := hfb
    subst hxs
    rw [slot_append, slot_cons_some hk] at hs'
    rw [pass_append, pass_cons_fresh hk hs, pass_append,
      pass_cons_fresh hk' hs'] at hp
    have htail := (List.pairwise_append.mp hp).2.1
    exact (List.pairwise_cons.mp htail).1 b (by simp)
  · induction xs generalizing last with
    | nil => exact List.Pairwise.nil
    | cons x xs ih =>
        cases hx : obs x with
        | none =>
            rw [pass_cons_none hx]
            refine ih fun pre a mid b post he hfa hfb => ?_
            obtain ⟨k, hk, hs⟩ := hfa
            obtain ⟨k', hk', hs'⟩ := hfb
            exact h (x :: pre) a mid b post (by rw [he, List.cons_append])
              ⟨k, hk, by rwa [slot_cons_none hx]⟩
              ⟨k', hk', by rwa [List.cons_append, slot_cons_none hx]⟩
        | some k =>
            have hrest : (pass obs (some k) xs).Pairwise R := by
              refine ih fun pre a mid b post he hfa hfb => ?_
              obtain ⟨k', hk', hs'⟩ := hfa
              obtain ⟨k'', hk'', hs''⟩ := hfb
              exact h (x :: pre) a mid b post (by rw [he, List.cons_append])
                ⟨k', hk', by rwa [slot_cons_some hx]⟩
                ⟨k'', hk'', by rwa [List.cons_append, slot_cons_some hx]⟩
            by_cases hl : last = some k
            · rw [hl, pass_cons_repeat hx]
              exact hrest
            · rw [pass_cons_fresh hx hl]
              refine List.pairwise_cons.mpr ⟨fun b hb => ?_, hrest⟩
              obtain ⟨mid, post, rfl, k', hk', hs'⟩ := mem_pass_iff.mp hb
              exact h [] x mid b post rfl ⟨k, hx, hl⟩
                ⟨k', hk', by rwa [List.nil_append, slot_cons_some hx]⟩

/-- A stretch that holds a key the slot does not has a fresh occurrence
of that key: its first one. -/
theorem exists_fresh (hk : obs x = some k) (hx : x ∈ xs)
    (hl : last ≠ some k) :
    ∃ pre y post, xs = pre ++ y :: post ∧ obs y = some k
      ∧ Fresh obs last pre y := by
  induction xs generalizing last with
  | nil => cases hx
  | cons a xs ih =>
      by_cases ha : obs a = some k
      · exact ⟨[], a, xs, rfl, ha, k, ha, hl⟩
      · have hx' : x ∈ xs := by
          rcases List.mem_cons.mp hx with rfl | h
          · exact absurd hk ha
          · exact h
        cases hoa : obs a with
        | none =>
            obtain ⟨pre, y, post, rfl, hy, k', hk', hs⟩ := ih hx' hl
            exact ⟨a :: pre, y, post, rfl, hy, k', hk',
              by rwa [slot_cons_none hoa]⟩
        | some k₀ =>
            obtain ⟨pre, y, post, rfl, hy, k', hk', hs⟩ :=
              ih hx' (fun he => ha (hoa.trans he))
            exact ⟨a :: pre, y, post, rfl, hy, k', hk',
              by rwa [slot_cons_some hoa]⟩

/-- Filtering a relabelled stream is relabelling what gets through. -/
theorem pass_map {ι' : Type*} (f : ι' → ι) (xs : List ι') :
    pass obs last (xs.map f) = (pass (fun i => obs (f i)) last xs).map f := by
  induction xs generalizing last with
  | nil => rfl
  | cons i xs ih =>
      rw [List.map_cons]
      cases hi : obs (f i) with
      | none =>
          rw [pass_cons_none hi, ih]
          simp only [pass, hi]
      | some k =>
          by_cases hl : last = some k
          · rw [hl, pass_cons_repeat hi, ih]
            simp only [pass, hi, if_true]
          · rw [pass_cons_fresh hi hl, ih]
            simp only [pass, hi, hl, if_false, List.map_cons]

-- ================================================== sorted streams

section Sorted

variable [LinearOrder ι]

/-- Over a sorted stream no point gets through twice: between two
readings of one point only that point is read, so the slot still holds
its key. -/
theorem pass_strictly_sorted (hs : xs.Pairwise (· ≤ ·)) :
    (pass obs last xs).Pairwise (· < ·) := by
  rw [pass_pairwise_iff]
  intro pre a mid b post hxs hfa hfb
  obtain ⟨k, hk, -⟩ := hfa
  obtain ⟨k', hk', hfresh⟩ := hfb
  subst hxs
  have htail := (List.pairwise_append.mp hs).2.1
  obtain ⟨ha, hmid⟩ := List.pairwise_cons.mp htail
  have hab : a ≤ b := ha b (by simp)
  refine lt_of_le_of_ne hab fun he => hfresh ?_
  subst he
  have hsame : ∀ y ∈ mid, y = a := by
    intro y hy
    have hya : y ≤ a := (List.pairwise_append.mp hmid).2.2 y hy a (by simp)
    exact le_antisymm hya (ha y (by simp [hy]))
  have hkk : k' = k := Option.some.inj (hk'.symm.trans hk)
  rw [slot_append, slot_cons_some hk, hkk]
  exact slot_stay fun y hy => .inr (by rw [hsame y hy, hk])

/-- Over a sorted stream read with another key in the slot, a keyed
point gets through unless its latest keyed predecessor carries the same
key. -/
theorem mem_pass_sorted_iff (hs : xs.Pairwise (· ≤ ·)) {m : ι}
    (hm : m ∈ xs) (hk : obs m = some k) (hl : last ≠ some k) :
    m ∈ pass obs last xs ↔
      ∀ m' ∈ xs, m' < m → (∀ y ∈ xs, m' < y → y < m → obs y = none) →
        obs m' ≠ some k := by
  obtain ⟨pre, post, rfl, hfirst⟩ := List.eq_append_cons_of_mem hm
  obtain ⟨hpre, htail, hcross⟩ := List.pairwise_append.mp hs
  have hlt : ∀ y ∈ pre, y < m := by
    intro y hy
    exact lt_of_le_of_ne (hcross y hy m (by simp))
      fun he => hfirst (he ▸ hy)
  have hge : ∀ y ∈ m :: post, m ≤ y := by
    intro y hy
    rcases List.mem_cons.mp hy with rfl | hy
    · exact le_refl _
    · exact (List.pairwise_cons.mp htail).1 y hy
  refine ⟨fun hp => ?_, fun h => ?_⟩
  · -- the fresh occurrence is the first one: later ones repeat it
    intro m' hm' hlt' hnone hk'
    have hm'pre : m' ∈ pre := by
      rcases List.mem_append.mp hm' with h | h
      · exact h
      · exact absurd (hge m' h) (not_le_of_gt hlt')
    have hslot : slot obs last pre = some k := by
      obtain ⟨q₁, q₂, hq, hq₂⟩ : ∃ q₁ q₂, pre = q₁ ++ m' :: q₂ ∧ m' ∉ q₂ := by
        have hrev : m' ∈ pre.reverse := by simpa using hm'pre
        obtain ⟨r₁, r₂, hr, hr₁⟩ := List.eq_append_cons_of_mem hrev
        refine ⟨r₂.reverse, r₁.reverse, ?_, by simpa using hr₁⟩
        have := congrArg List.reverse hr
        simpa using this
      refine slot_eq_some_iff.mpr (.inr ⟨q₁, m', q₂, hq, hk', ?_⟩)
      intro y hy
      have hypre : y ∈ pre := by rw [hq]; simp [hy]
      have hle : m' ≤ y := by
        rw [hq] at hpre
        exact (List.pairwise_cons.mp (List.pairwise_append.mp hpre).2.1).1 y hy
      have hne : m' ≠ y := fun he => hq₂ (he ▸ hy)
      exact hnone y (by simp [hypre]) (lt_of_le_of_ne hle hne) (hlt y hypre)
    rw [pass_append, hslot, pass_cons_repeat hk] at hp
    rcases List.mem_append.mp hp with hp | hp
    · obtain ⟨r₁, r₂, hr, -⟩ := mem_pass_iff.mp hp
      exact hfirst (by rw [hr]; simp)
    · have hsorted : (pass obs last (m :: post)).Pairwise (· < ·) :=
        pass_strictly_sorted htail
      rw [pass_cons_fresh hk hl] at hsorted
      exact lt_irrefl m ((List.pairwise_cons.mp hsorted).1 m hp)
  · refine mem_pass_iff.mpr ⟨pre, post, rfl, k, hk, ?_⟩
    intro hslot
    rcases slot_eq_some_iff.mp hslot with ⟨hlk, -⟩ | ⟨q₁, m', q₂, rfl, hk', hq₂⟩
    · exact hl hlk
    · refine h m' (by simp) (hlt m' (by simp)) ?_ hk'
      intro y hy hy₁ hy₂
      rcases List.mem_append.mp hy with hy | hy
      · rcases List.mem_append.mp hy with hy | hy
        · have : y ≤ m' := (List.pairwise_append.mp hpre).2.2 y hy m' (by simp)
          exact absurd this (not_le_of_gt hy₁)
        · rcases List.mem_cons.mp hy with rfl | hy
          · exact absurd hy₁ (lt_irrefl _)
          · exact hq₂ y hy
      · exact absurd (hge y hy) (not_le_of_gt hy₂)

end Sorted

end Kit.Recall
