/-
Labelled machines with an executable partial step, and the rules by
which a fact about one step becomes a fact about every run.

# The shape

A machine is an initial state and `apply : α → σ → Option σ`: an action
either fires or is disabled (`none`). All nondeterminism — scheduling,
the environment's answers — sits in the choice of the action, so a run
is a list of actions and can be executed.

# Guarded reachability

`ReachableBy G` collects the states reached by steps that all meet the
guard `G`, a condition on the state before the step and the action
taken. `Reachable` is the unguarded case. A guard states under which
schedules a system behaves; `invariant` is the one induction behind
every result about it.

# Progress

`exists_runBy_of_rank` is the rule for "these parties by themselves
finish": until the goal holds, one of their actions is enabled that
keeps the invariant and lowers a rank.

# Exact guards

`throughout_iff_obeys` is the two-sided form for one run: when a step
that meets the guard keeps a property and a step that breaks the guard
breaks the property at once, then a run satisfies the property in every
state it visits if and only if all of its steps meet the guard.
-/
import Mathlib.Tactic.Common

namespace Kit

universe u v

/-- A labelled machine: where it starts, and what an action does to a
state (`none` when the action is disabled there). -/
structure Machine (σ : Type u) (α : Type v) where
  init : σ
  apply : α → σ → Option σ

namespace Machine

variable {σ : Type u} {α : Type v} (M : Machine σ α)

-- ================================================================ runs

/-- Run a list of actions from a state, failing on the first disabled
one. -/
def run : σ → List α → Option σ
  | s, [] => some s
  | s, a :: rest =>
      match M.apply a s with
      | some s' => run s' rest
      | none => none

/-- Run a list of actions, failing also on the first step that does not
meet the guard. -/
def runBy (G : σ → α → Prop) [∀ s a, Decidable (G s a)] :
    σ → List α → Option σ
  | s, [] => some s
  | s, a :: rest =>
      if G s a then
        match M.apply a s with
        | some s' => runBy G s' rest
        | none => none
      else none

/-- States reached from the initial one by steps that all meet `G`. -/
inductive ReachableBy (G : σ → α → Prop) : σ → Prop
  | init : ReachableBy G M.init
  | step {s s' : σ} (a : α) :
      ReachableBy G s → G s a → M.apply a s = some s' → ReachableBy G s'

/-- States reached by any steps at all. -/
abbrev Reachable : σ → Prop := M.ReachableBy fun _ _ => True

/-- `P` holds in every state the run visits, both ends included. -/
def Throughout (P : σ → Prop) : σ → List α → Prop
  | s, [] => P s
  | s, a :: rest => P s ∧ ∀ s', M.apply a s = some s' → Throughout P s' rest

/-- Every step of the run meets the guard. -/
def Obeys (G : σ → α → Prop) : σ → List α → Prop
  | _, [] => True
  | s, a :: rest => G s a ∧ ∀ s', M.apply a s = some s' → Obeys G s' rest

variable {M} {G H : σ → α → Prop} {I P : σ → Prop}

/-- An action that fires, then the rest of the run. -/
theorem run_cons {a : α} {acts : List α} {s s₁ : σ}
    (happ : M.apply a s = some s₁) : M.run s (a :: acts) = M.run s₁ acts := by
  simp only [run, happ]

/-- The first action of a run fires. -/
theorem run_cons_inv {a : α} {acts : List α} {s s' : σ}
    (hrun : M.run s (a :: acts) = some s') :
    ∃ s₁, M.apply a s = some s₁ ∧ M.run s₁ acts = some s' := by
  cases happ : M.apply a s with
  | none => simp [run, happ] at hrun
  | some s₁ => exact ⟨s₁, rfl, run_cons happ ▸ hrun⟩

/-- A run is its first part followed by its second. -/
theorem run_append {acts acts' : List α} {s s' : σ} :
    M.run s (acts ++ acts') = some s'
      ↔ ∃ s₁, M.run s acts = some s₁ ∧ M.run s₁ acts' = some s' := by
  induction acts generalizing s with
  | nil =>
      refine ⟨fun h => ⟨s, rfl, h⟩, fun ⟨s₁, h, h'⟩ => ?_⟩
      rw [Option.some.inj h]
      exact h'
  | cons a rest ih =>
      simp only [List.cons_append, run]
      cases M.apply a s with
      | none => simp
      | some s₁ => exact ih

-- ========================================================== invariants

/-- The induction behind every invariant: a fact that holds initially
and that each guarded step keeps holds in every state reached. -/
theorem ReachableBy.invariant (h0 : I M.init)
    (hstep : ∀ s a s', I s → G s a → M.apply a s = some s' → I s')
    {s : σ} (hr : M.ReachableBy G s) : I s := by
  induction hr with
  | init => exact h0
  | step a _ hg happ ih => exact hstep _ a _ ih hg happ

/-- A stronger guard reaches no more. -/
theorem ReachableBy.mono (hGH : ∀ s a, G s a → H s a) {s : σ}
    (hr : M.ReachableBy G s) : M.ReachableBy H s := by
  induction hr with
  | init => exact .init
  | step a _ hg happ ih => exact .step a ih (hGH _ a hg) happ

/-- Guarded reachability is reachability. -/
theorem ReachableBy.reachable {s : σ} (hr : M.ReachableBy G s) :
    M.Reachable s :=
  hr.mono fun _ _ _ => trivial

/-- A successful run whose steps meet the guard continues guarded
reachability. -/
theorem ReachableBy.run_of_obeys :
    ∀ {acts : List α} {s s' : σ}, M.ReachableBy G s →
      M.Obeys G s acts → M.run s acts = some s' → M.ReachableBy G s' := by
  intro acts
  induction acts with
  | nil =>
      intro s s' hr _ hrun
      simp only [run, Option.some.injEq] at hrun
      exact hrun ▸ hr
  | cons a rest ih =>
      intro s s' hr hob hrun
      obtain ⟨s₁, happ, hrun₁⟩ := run_cons_inv hrun
      have hr₁ : M.ReachableBy G s₁ := .step a hr hob.1 happ
      exact ih hr₁ (hob.2 s₁ happ) hrun₁

/-- Every run obeys the trivial guard. -/
theorem obeys_true (s : σ) (acts : List α) :
    M.Obeys (fun _ _ => True) s acts := by
  induction acts generalizing s with
  | nil => trivial
  | cons a rest ih => exact ⟨trivial, fun s' _ => ih s'⟩

/-- A successful run from the initial state lands on a reachable
state. -/
theorem reachable_of_run {acts : List α} {s : σ}
    (hrun : M.run M.init acts = some s) : M.Reachable s :=
  ReachableBy.run_of_obeys .init (obeys_true _ _) hrun

/-- A guarded run from a state reached continues guarded
reachability. -/
theorem ReachableBy.runBy [∀ s a, Decidable (G s a)] {acts : List α}
    {s s' : σ} (hr : M.ReachableBy G s) (hrun : M.runBy G s acts = some s') :
    M.ReachableBy G s' := by
  induction acts generalizing s with
  | nil =>
      simp only [Machine.runBy, Option.some.injEq] at hrun
      exact hrun ▸ hr
  | cons a rest ih =>
      unfold Machine.runBy at hrun
      split at hrun
      · next hg =>
        cases happ : M.apply a s with
        | none => simp [happ] at hrun
        | some s₁ => exact ih (.step a hr hg happ) (by simpa [happ] using hrun)
      · cases hrun

/-- The first action of a guarded run meets the guard and fires. -/
theorem runBy_cons_inv [∀ s a, Decidable (G s a)] {a : α} {acts : List α}
    {s s' : σ} (hrun : M.runBy G s (a :: acts) = some s') :
    G s a ∧ ∃ s₁, M.apply a s = some s₁ ∧ M.runBy G s₁ acts = some s' := by
  rw [Machine.runBy] at hrun
  split at hrun
  next hg =>
    cases happ : M.apply a s with
    | none => rw [happ] at hrun; cases hrun
    | some s₁ =>
        rw [happ] at hrun
        exact ⟨hg, s₁, rfl, hrun⟩
  next => cases hrun

-- ============================================================ progress

/-- While the goal is open, some action of `A` meets the guard, fires,
keeps the invariant and lowers the rank; then a run of such actions
reaches the goal. -/
theorem exists_runBy_of_rank [∀ s a, Decidable (G s a)] {A : α → Prop}
    (goal : σ → Prop) (rank : σ → Nat)
    (hstep : ∀ s, I s → ¬ goal s →
      ∃ a s', A a ∧ G s a ∧ M.apply a s = some s' ∧ I s' ∧ rank s' < rank s)
    {s : σ} (hI : I s) :
    ∃ acts s', (∀ a ∈ acts, A a) ∧ M.runBy G s acts = some s' ∧ I s'
      ∧ goal s' := by
  induction hn : rank s using Nat.strongRecOn generalizing s with
  | ind n ih =>
      by_cases hgoal : goal s
      · exact ⟨[], s, by simp, rfl, hI, hgoal⟩
      · obtain ⟨a, s₁, hA, hG, happ, hI₁, hlt⟩ := hstep s hI hgoal
        obtain ⟨acts, s', hacts, hrun, hend⟩ := ih _ (hn ▸ hlt) hI₁ rfl
        refine ⟨a :: acts, s', ?_, ?_, hend⟩
        · rw [List.forall_mem_cons]
          exact ⟨hA, hacts⟩
        · unfold Machine.runBy
          rw [if_pos hG, happ]
          exact hrun

/-- What holds throughout a run holds behind each first part of it. -/
theorem Throughout.after {acts rest : List α} {s s' : σ}
    (h : M.Throughout P s (acts ++ rest)) (hrun : M.run s acts = some s') :
    P s' := by
  induction acts generalizing s with
  | nil =>
      obtain rfl := Option.some.inj hrun
      cases rest with
      | nil => exact h
      | cons a rest => exact h.1
  | cons a acts ih =>
      obtain ⟨s₁, happ, hrun₁⟩ := run_cons_inv hrun
      exact ih (h.2 s₁ happ) hrun₁

-- ======================================================== exact guards

/-- The guard is exact for the property along a run, from any state
where the invariant and the property hold: a guarded step keeps both
(`hkeep`), an unguarded one loses the property at once (`hbreak`). -/
theorem throughout_iff_obeys_from
    (hkeep : ∀ s a s', I s → P s → G s a → M.apply a s = some s' →
      I s' ∧ P s')
    (hbreak : ∀ s a s', I s → P s → ¬ G s a → M.apply a s = some s' →
      ¬ P s') :
    ∀ {acts : List α} {s s' : σ}, I s → P s → M.run s acts = some s' →
      (M.Throughout P s acts ↔ M.Obeys G s acts) := by
  intro acts
  induction acts with
  | nil => exact fun _ hP _ => ⟨fun _ => trivial, fun _ => hP⟩
  | cons a rest ih =>
      intro s s' hI hP hrun
      obtain ⟨s₁, happ, hrun₁⟩ := run_cons_inv hrun
      have honly : ∀ s₂, M.apply a s = some s₂ → s₂ = s₁ := by
        intro s₂ h₂
        exact Option.some.inj (h₂.symm.trans happ)
      refine ⟨fun ⟨_, hrest⟩ => ?_, fun ⟨hG, hrest⟩ => ?_⟩
      · have hth := hrest s₁ happ
        have hP₁ : P s₁ := by
          cases rest with
          | nil => exact hth
          | cons b rest => exact hth.1
        have hG : G s a := by
          by_contra hG
          exact hbreak s a s₁ hI hP hG happ hP₁
        have hI₁ := (hkeep s a s₁ hI hP hG happ).1
        refine ⟨hG, fun s₂ h₂ => ?_⟩
        rw [honly s₂ h₂]
        exact (ih hI₁ hP₁ hrun₁).mp hth
      · obtain ⟨hI₁, hP₁⟩ := hkeep s a s₁ hI hP hG happ
        refine ⟨hP, fun s₂ h₂ => ?_⟩
        rw [honly s₂ h₂]
        exact (ih hI₁ hP₁ hrun₁).mpr (hrest s₁ happ)

/-- The guard is exact for the property along every run of the
machine. -/
theorem throughout_iff_obeys (hI : I M.init) (hP : P M.init)
    (hkeep : ∀ s a s', I s → P s → G s a → M.apply a s = some s' →
      I s' ∧ P s')
    (hbreak : ∀ s a s', I s → P s → ¬ G s a → M.apply a s = some s' →
      ¬ P s')
    {acts : List α} {s : σ} (hrun : M.run M.init acts = some s) :
    M.Throughout P M.init acts ↔ M.Obeys G M.init acts :=
  throughout_iff_obeys_from hkeep hbreak hI hP hrun

end Machine

end Kit
