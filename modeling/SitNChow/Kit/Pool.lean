/-
A pool whose resources carry a flag each: the flag says that the pool has
the resource, and a list names those that are out.

# The ledger

`Ledger own free out` is the agreement of the two: nothing is out twice,
and of the pool's own resources exactly those with the flag down are out.
So no resource is lost either: one that is nowhere outside has its flag
up. Lending lowers the flag (`Ledger.lend`), taking back raises it
(`Ledger.back`), and passing a resource on outside is a permutation
(`Ledger.perm`).
-/
import Mathlib.Data.List.Nodup
import Mathlib.Logic.Function.Basic

namespace Kit.Pool

universe u

/-- The flags and the list of what is out agree. -/
structure Ledger {α : Type u} (own : α → Prop) (free : α → Bool)
    (out : List α) : Prop where
  nodup : out.Nodup
  owned : ∀ x ∈ out, own x
  free_iff : ∀ x, own x → (free x = true ↔ x ∉ out)

variable {α : Type u} {own : α → Prop} {free : α → Bool} {out out' : List α}
  {x : α}

/-- At the start every flag is up. -/
theorem ledger_start (own : α → Prop) : Ledger own (fun _ => true) [] where
  nodup := .nil
  owned _ hx := absurd hx List.not_mem_nil
  free_iff _ _ := ⟨fun _ => List.not_mem_nil, fun _ => rfl⟩

/-- Resources change hands outside. -/
theorem Ledger.perm (h : Ledger own free out) (hp : out'.Perm out) :
    Ledger own free out' where
  nodup := hp.nodup_iff.mpr h.nodup
  owned x hx := h.owned x (hp.mem_iff.mp hx)
  free_iff x hx := by
    rw [hp.mem_iff]
    exact h.free_iff x hx

variable [DecidableEq α]

/-- A resource of the pool goes out, and its flag goes down. -/
theorem Ledger.lend (h : Ledger own free out) (hx : own x)
    (hfree : free x = true) :
    Ledger own (Function.update free x false) (x :: out) where
  nodup := List.nodup_cons.mpr ⟨(h.free_iff x hx).mp hfree, h.nodup⟩
  owned y hy := by
    rcases List.mem_cons.mp hy with rfl | hy
    · exact hx
    · exact h.owned y hy
  free_iff y hy := by
    by_cases hyx : y = x
    · subst hyx
      rw [Function.update_self]
      exact ⟨fun hf => absurd hf Bool.false_ne_true,
        fun hnot => absurd List.mem_cons_self hnot⟩
    · rw [Function.update_of_ne hyx, h.free_iff y hy, List.mem_cons,
        or_iff_right hyx]

/-- A resource comes back, and its flag goes up. -/
theorem Ledger.back (h : Ledger own free (x :: out)) :
    Ledger own (Function.update free x true) out where
  nodup := (List.nodup_cons.mp h.nodup).2
  owned y hy := h.owned y (List.mem_cons_of_mem x hy)
  free_iff y hy := by
    by_cases hyx : y = x
    · subst hyx
      rw [Function.update_self]
      exact ⟨fun _ => (List.nodup_cons.mp h.nodup).1, fun _ => rfl⟩
    · rw [Function.update_of_ne hyx, h.free_iff y hy, List.mem_cons,
        or_iff_right hyx]

end Kit.Pool
