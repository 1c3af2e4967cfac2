/-
Data behind a mutex: any number of parties, each of which comes with a
request, waits for the mutex, executes a section on the data one step at
a time, and gives the mutex back at the section's end.

# The rule

`Rule` is the obligation for one section on its own, as if it were
alone: it starts from data that meets `Outer`, keeps `Inner` from step
to step, and leaves data that meets `Outer` again. The data then meets
`Outer` whenever the mutex is free, and `Inner` of the section that is
being executed whenever it is not, in any interleaving
(`Rule.reachable`). Exclusion is that of a line which is switched on only
while it is off.

# Progress

`Finishes` runs one section by itself to its end. While the mutex is
free, a party outside can do so (`exists_run_section`).
-/
import SitNChow.Kit.Line
import SitNChow.Kit.Machine

namespace Kit.Mutex

universe u v w x

-- ============================================================= the system

/-- Where a party is: outside, before the mutex with a section to
execute, or inside with the rest of it. -/
inductive Place (γ : Type w) where
  | out
  | waiting (c : γ)
  | inside (c : γ)

def Place.isInside {γ : Type w} : Place γ → Bool
  | .inside _ => true
  | .out | .waiting _ => false

/-- The data, whether the mutex is taken, and where the parties are. -/
structure Guarded (τ : Type u) (δ : Type v) (γ : Type w) where
  data : δ
  taken : Bool
  place : τ → Place γ

/-- The section a request leads to, if it leads to one, and a step of a
section: what is left of it, or that it gives the mutex back, and the
data. -/
structure Sections (ρ : Type x) (δ : Type v) (γ : Type w) where
  enter : ρ → Option γ
  next : γ → δ → Option γ × δ

/-- A party comes with a request, takes the mutex, or executes one
step. -/
inductive Act (τ : Type u) (ρ : Type x) where
  | call (i : τ) (r : ρ)
  | take (i : τ)
  | step (i : τ)

variable {τ : Type u} {δ : Type v} {γ : Type w} {ρ : Type x}

/-- Nobody is inside, and the data is as given. -/
def Guarded.start (d : δ) : Guarded τ δ γ := ⟨d, false, fun _ => .out⟩

/-- The state with one party elsewhere. -/
def Guarded.move [DecidableEq τ] (s : Guarded τ δ γ) (i : τ) (p : Place γ) :
    Guarded τ δ γ :=
  { s with place := fun j => if j = i then p else s.place j }

def Sections.apply [DecidableEq τ] (S : Sections ρ δ γ) :
    Act τ ρ → Guarded τ δ γ → Option (Guarded τ δ γ)
  | .call i r, s =>
      match s.place i with
      | .out =>
          match S.enter r with
          | some c => some (s.move i (.waiting c))
          | none => some s
      | _ => none
  | .take i, s =>
      match s.place i with
      | .waiting c =>
          if s.taken then none
          else some { s.move i (.inside c) with taken := true }
      | _ => none
  | .step i, s =>
      match s.place i with
      | .inside c =>
          match S.next c s.data with
          | (some c', d) => some { s.move i (.inside c') with data := d }
          | (none, d) => some { s.move i .out with data := d, taken := false }
      | _ => none

/-- The parties on data that starts as given. -/
def Sections.machine [DecidableEq τ] (S : Sections ρ δ γ) (d : δ) :
    Machine (Guarded τ δ γ) (Act τ ρ) :=
  ⟨.start d, S.apply⟩

-- ========================================================= what holds then

/-- What one section has to keep: `Outer` is the invariant of the data
while the mutex is free, `Inner` that of the section being executed. -/
structure Rule (S : Sections ρ δ γ) (Outer : δ → Prop) (Inner : γ → δ → Prop) :
    Prop where
  enter : ∀ r c d, S.enter r = some c → Outer d → Inner c d
  stay : ∀ c d c' d', Inner c d → S.next c d = (some c', d') → Inner c' d'
  leave : ∀ c d d', Inner c d → S.next c d = (none, d') → Outer d'

/-- What holds in any interleaving. -/
structure Invariant (S : Sections ρ δ γ) (Outer : δ → Prop)
    (Inner : γ → δ → Prop) (s : Guarded τ δ γ) : Prop where
  sole : Line.Sole fun i => (s.place i).isInside
  tracks : Line.Tracks (fun i => (s.place i).isInside) s.taken
  waiting : ∀ i c, s.place i = .waiting c → ∃ r, S.enter r = some c
  free : s.taken = false → Outer s.data
  held : ∀ i c, s.place i = .inside c → Inner c s.data

variable {S : Sections ρ δ γ} {Outer : δ → Prop} {Inner : γ → δ → Prop}
  {s s' : Guarded τ δ γ} {i j : τ} {c c' : γ} {d d' : δ} {p : Place γ}

theorem Invariant.start (h : Outer d) :
    Invariant S Outer Inner (.start d : Guarded τ δ γ) where
  sole := by
    intro i j hi
    cases hi
  tracks := by
    constructor
    · intro h
      cases h
    · rintro ⟨i, hi⟩
      cases hi
  waiting := by
    intro i c hi
    cases hi
  free := fun _ => h
  held := by
    intro i c hi
    cases hi

/-- Whoever is inside has the mutex. -/
theorem Invariant.taken (hinv : Invariant S Outer Inner s)
    (hi : s.place i = .inside c) : s.taken = true := by
  refine hinv.tracks.mpr ⟨i, ?_⟩
  show (s.place i).isInside = true
  rw [hi]
  rfl

/-- Nobody else is inside with the party that is. -/
theorem Invariant.alone (hinv : Invariant S Outer Inner s)
    (hi : s.place i = .inside c) (hj : j ≠ i) : s.place j ≠ .inside c' := by
  intro hin
  refine hj (hinv.sole j i ?_ ?_)
  · show (s.place j).isInside = true
    rw [hin]
    rfl
  · show (s.place i).isInside = true
    rw [hi]
    rfl

/-- What both of the rule's invariants say of the data holds always. -/
theorem Invariant.data {P : δ → Prop} (hinv : Invariant S Outer Inner s)
    (hout : ∀ d, Outer d → P d) (hin : ∀ c d, Inner c d → P d) : P s.data := by
  cases ht : s.taken with
  | false => exact hout s.data (hinv.free ht)
  | true =>
      obtain ⟨i, hi⟩ := hinv.tracks.mp ht
      cases hp : s.place i with
      | inside c => exact hin c s.data (hinv.held i c hp)
      | out => simp [hp, Place.isInside] at hi
      | waiting c => simp [hp, Place.isInside] at hi

-- =========================================================== step by step

variable [DecidableEq τ]

@[simp] theorem move_place_self : (s.move i p).place i = p := if_pos rfl

theorem move_place_ne (h : j ≠ i) : (s.move i p).place j = s.place j :=
  if_neg h

theorem move_place (j : τ) :
    (s.move i p).place j = if j = i then p else s.place j := rfl

/-- What an action does: at most one party moves, and only from inside
does the data change. -/
theorem apply_cases {a : Act τ ρ} (h : S.apply a s = some s') :
    (∃ i r, a = .call i r ∧ s.place i = .out
        ∧ ((S.enter r = none ∧ s' = s)
          ∨ ∃ c, S.enter r = some c ∧ s' = s.move i (.waiting c)))
      ∨ (∃ i c, a = .take i ∧ s.place i = .waiting c ∧ s.taken = false
        ∧ s' = { s.move i (.inside c) with taken := true })
      ∨ (∃ i c c' d, a = .step i ∧ s.place i = .inside c
        ∧ S.next c s.data = (some c', d)
        ∧ s' = { s.move i (.inside c') with data := d })
      ∨ ∃ i c d, a = .step i ∧ s.place i = .inside c
        ∧ S.next c s.data = (none, d)
        ∧ s' = { s.move i .out with data := d, taken := false } := by
  cases a with
  | call i r =>
      simp only [Sections.apply] at h
      split at h
      · next hp =>
        refine .inl ⟨i, r, rfl, hp, ?_⟩
        split at h
        · next c hc => exact .inr ⟨c, hc, (Option.some.inj h).symm⟩
        · next hc => exact .inl ⟨hc, (Option.some.inj h).symm⟩
      · cases h
  | take i =>
      simp only [Sections.apply] at h
      split at h
      · next c hp =>
        split at h
        · cases h
        · next ht =>
          exact .inr (.inl ⟨i, c, rfl, hp, Bool.eq_false_iff.mpr ht,
            (Option.some.inj h).symm⟩)
      · cases h
  | step i =>
      simp only [Sections.apply] at h
      split at h
      · next c hp =>
        split at h
        · next c' d hn =>
          exact .inr (.inr (.inl ⟨i, c, c', d, rfl, hp, hn,
            (Option.some.inj h).symm⟩))
        · next d hn =>
          exact .inr (.inr (.inr ⟨i, c, d, rfl, hp, hn,
            (Option.some.inj h).symm⟩))
      · cases h

/-- A request that leads to no section changes nothing. -/
theorem eq_of_enter_none {r : ρ} (hc : S.enter r = none)
    (h : S.apply (.call i r) s = some s') : s' = s := by
  rcases apply_cases h with ⟨_, _, ha, -, ⟨-, rfl⟩ | ⟨c, hc', -⟩⟩ | ⟨_, _, ha, -⟩
    | ⟨_, _, _, _, ha, -⟩ | ⟨_, _, _, ha, -⟩
  · rfl
  · cases ha
    cases hc.symm.trans hc'
  all_goals cases ha

/-- A move of one party keeps exclusion, when it goes inside only while
the mutex is free. -/
theorem Invariant.line (hinv : Invariant S Outer Inner s) {on : Bool}
    (hm : Line.Move (s.place i).isInside p.isInside s.taken on)
    (hfree : (s.place i).isInside = false → p.isInside = true →
      s.taken = false) :
    Line.Sole (fun j => ((s.move i p).place j).isInside)
      ∧ Line.Tracks (fun j => ((s.move i p).place j).isInside) on := by
  refine hinv.sole.step (i := i) hinv.tracks (fun j hj => ?_) ?_ ?_
  · rw [move_place_ne hj]
  · rw [move_place_self]
    exact hm
  · rw [move_place_self]
    exact hfree

/-- Whoever waits elsewhere still waits. -/
theorem Invariant.waiting_move (hinv : Invariant S Outer Inner s)
    (hp : ∀ c, p = .waiting c → ∃ r, S.enter r = some c) :
    ∀ j c, (s.move i p).place j = .waiting c → ∃ r, S.enter r = some c := by
  intro j c hj
  rw [move_place] at hj
  split at hj
  · exact hp c hj
  · exact hinv.waiting j c hj

/-- A party that is not inside afterwards leaves the others as they
were. -/
theorem Invariant.held_move (hinv : Invariant S Outer Inner s)
    (hp : ∀ c, p ≠ .inside c) :
    ∀ j c, (s.move i p).place j = .inside c → Inner c s.data := by
  intro j c hj
  rw [move_place] at hj
  split at hj
  · exact absurd hj (hp c)
  · exact hinv.held j c hj

/-- Every action keeps the invariant. -/
theorem Rule.step (hr : Rule S Outer Inner) {a : Act τ ρ}
    (hinv : Invariant S Outer Inner s) (h : S.apply a s = some s') :
    Invariant S Outer Inner s' := by
  rcases apply_cases h with ⟨i, r, rfl, hp, ⟨-, rfl⟩ | ⟨c, hc, rfl⟩⟩
    | ⟨i, c, rfl, hp, ht, rfl⟩ | ⟨i, c, c', d, rfl, hp, hn, rfl⟩
    | ⟨i, c, d, rfl, hp, hn, rfl⟩
  · exact hinv
  · obtain ⟨hsole, htracks⟩ := hinv.line (i := i) (p := .waiting c)
      (by rw [hp]; exact .keep) (by intro _ h; cases h)
    refine ⟨hsole, htracks, hinv.waiting_move ?_, hinv.free,
      hinv.held_move (by intro c' h; cases h)⟩
    rintro c' ⟨⟩
    exact ⟨r, hc⟩
  · obtain ⟨hsole, htracks⟩ := hinv.line (i := i) (p := .inside c)
      (by rw [hp]; exact .take) (fun _ _ => ht)
    refine ⟨hsole, htracks, hinv.waiting_move (by intro _ h; cases h),
      (by intro h; cases h), ?_⟩
    intro j c' hj
    -- the mutex was free, so the party that took it is the one inside
    by_cases hji : j = i
    · subst hji
      rw [move_place_self] at hj
      cases hj
      obtain ⟨r, hc⟩ := hinv.waiting j c hp
      exact hr.enter r c s.data hc (hinv.free ht)
    · rw [move_place_ne hji] at hj
      cases ht.symm.trans (hinv.taken hj)
  · obtain ⟨hsole, htracks⟩ := hinv.line (i := i) (p := .inside c')
      (by rw [hp]; exact .keep) (by rw [hp]; intro h; cases h)
    refine ⟨hsole, htracks, hinv.waiting_move (by intro _ h; cases h), ?_, ?_⟩
    · intro h
      cases h.symm.trans (hinv.taken hp)
    · intro j c₂ hj
      by_cases hji : j = i
      · subst hji
        rw [move_place_self] at hj
        cases hj
        exact hr.stay c s.data c' d (hinv.held j c hp) hn
      · rw [move_place_ne hji] at hj
        exact absurd hj (hinv.alone hp hji)
  · have hdrop : Line.Move (s.place i).isInside (Place.out : Place γ).isInside
        s.taken false := by
      rw [hp, hinv.taken hp]
      exact .drop
    obtain ⟨hsole, htracks⟩ := hinv.line (i := i) hdrop (by intro _ h; cases h)
    refine ⟨hsole, htracks, hinv.waiting_move (by intro _ h; cases h),
      fun _ => hr.leave c s.data d (hinv.held i c hp) hn, ?_⟩
    intro j c' hj
    by_cases hji : j = i
    · subst hji
      rw [move_place_self] at hj
      cases hj
    · rw [move_place_ne hji] at hj
      exact absurd hj (hinv.alone hp hji)

theorem Rule.reachable (hr : Rule S Outer Inner) (h0 : Outer d)
    (h : (S.machine d).Reachable s) : Invariant S Outer Inner s :=
  h.invariant (I := Invariant S Outer Inner) (.start h0)
    fun _ _ _ hinv _ happ => hr.step hinv happ

-- =============================================================== progress

/-- A section executed by itself: the data it leaves. -/
inductive Finishes (S : Sections ρ δ γ) : γ → δ → δ → Prop
  | leave {c : γ} {d d' : δ} (h : S.next c d = (none, d')) : Finishes S c d d'
  | stay {c c' : γ} {d d₁ d' : δ} (h : S.next c d = (some c', d₁))
      (rest : Finishes S c' d₁ d') : Finishes S c d d'

/-- The state when a party has finished, with the data it leaves. -/
def Guarded.finish (s : Guarded τ δ γ) (i : τ) (d : δ) : Guarded τ δ γ :=
  { s.move i .out with data := d, taken := false }

/-- Where the party was on the way makes no difference. -/
theorem finish_move {taken : Bool} :
    ({ s.move i p with data := d, taken := taken } : Guarded τ δ γ).finish i d'
      = s.finish i d' := by
  have hplace : ∀ j, (if j = i then .out else (s.move i p).place j)
      = if j = i then .out else s.place j := by
    intro j
    by_cases hji : j = i
    · rw [if_pos hji, if_pos hji]
    · rw [if_neg hji, if_neg hji, move_place_ne hji]
  exact congrArg (Guarded.mk d' false) (funext hplace)

/-- A party inside executes its section to the end. -/
theorem exists_run_inside (hf : Finishes S c d d') (d₀ : δ) :
    ∀ s : Guarded τ δ γ, s.data = d → s.place i = .inside c →
      ∃ acts, (S.machine d₀).run s acts = some (s.finish i d') := by
  induction hf with
  | @leave c d d' h =>
      rintro s rfl hp
      have happ : (S.machine d₀).apply (.step i) s = some (s.finish i d') := by
        simp only [Sections.machine, Sections.apply, hp, h]
        rfl
      exact ⟨[.step i], Machine.run_cons happ⟩
  | @stay c c' d d₁ d' h rest ih =>
      rintro s rfl hp
      have happ : (S.machine d₀).apply (.step i) s
          = some { s.move i (.inside c') with data := d₁ } := by
        simp only [Sections.machine, Sections.apply, hp, h]
      obtain ⟨acts, hrun⟩ := ih { s.move i (.inside c') with data := d₁ }
        rfl move_place_self
      refine ⟨.step i :: acts, ?_⟩
      rw [Machine.run_cons happ, hrun]
      exact congrArg some finish_move

/-- A request of a party outside, while the mutex is free, can be
executed to its end before anybody else moves. -/
theorem exists_run_section {r : ρ} (hc : S.enter r = some c)
    (hf : Finishes S c s.data d') (hp : s.place i = .out)
    (ht : s.taken = false) (d₀ : δ) :
    ∃ acts, (S.machine d₀).run s acts = some (s.finish i d') := by
  have hcall : (S.machine d₀).apply (.call i r) s
      = some (s.move i (.waiting c)) := by
    simp only [Sections.machine, Sections.apply, hp, hc]
  have htake : (S.machine d₀).apply (.take i) (s.move i (.waiting c))
      = some { (s.move i (.waiting c)).move i (.inside c) with taken := true } := by
    have hfree : ¬ (s.move i (.waiting c)).taken = true := by
      show ¬ s.taken = true
      rw [ht]
      exact Bool.false_ne_true
    simp only [Sections.machine, Sections.apply, move_place_self]
    exact if_neg hfree
  obtain ⟨acts, hrun⟩ := exists_run_inside hf d₀
    { (s.move i (.waiting c)).move i (.inside c) with taken := true } rfl
    move_place_self
  refine ⟨.call i r :: .take i :: acts, ?_⟩
  rw [Machine.run_cons hcall, Machine.run_cons htake, hrun]
  exact congrArg some (finish_move.trans finish_move)

/-- The same, from a state that has been reached. -/
theorem reachable_section {d₀ : δ} {r : ρ} (hr : (S.machine d₀).Reachable s)
    (hc : S.enter r = some c) (hf : Finishes S c s.data d')
    (hp : s.place i = .out) (ht : s.taken = false) :
    (S.machine d₀).Reachable (s.finish i d') := by
  obtain ⟨acts, hrun⟩ := exists_run_section hc hf hp ht d₀
  exact hr.run_of_obeys (Machine.obeys_true s acts) hrun

end Kit.Mutex
