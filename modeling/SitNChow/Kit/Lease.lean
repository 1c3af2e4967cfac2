/-
Leases: resources that are taken, used and given back, and what a
history of such uses must look like.

# Valid histories

`Valid out uses` reads a history from the resources `out` at its start:
what is taken must not be out, what is read or given back must be.
Resources are reused, so a valid history may take one again after it was
given back; `taken_between` is the consequence that matters, that
nothing is read or given back twice without being taken in between.
-/
import Mathlib.Data.List.Nodup

namespace Kit.Lease

universe u

/-- One use of a resource. -/
inductive Use (α : Type u) where
  | take (x : α)
  | read (x : α)
  | give (x : α)

variable {α : Type u} [DecidableEq α] {out : List α} {x : α}

/-- What is out after a use. -/
def Use.after (out : List α) : Use α → List α
  | .take x => x :: out
  | .read _ => out
  | .give x => out.erase x

/-- The use is of a resource in the right state. -/
def Use.Ok (out : List α) : Use α → Prop
  | .take x => x ∉ out
  | .read x | .give x => x ∈ out

/-- What is out after a history. -/
def outAfter (out : List α) (uses : List (Use α)) : List α :=
  uses.foldl Use.after out

/-- Every use of the history is of a resource in the right state. -/
def Valid : List α → List (Use α) → Prop
  | _, [] => True
  | out, u :: rest => u.Ok out ∧ Valid (u.after out) rest

/-- A valid use keeps what is out without duplicates. -/
theorem Use.nodup_after {u : Use α} (hu : u.Ok out) (h : out.Nodup) :
    (u.after out).Nodup := by
  cases u with
  | take x => exact List.nodup_cons.mpr ⟨hu, h⟩
  | read x => exact h
  | give x => exact h.erase x

theorem nodup_outAfter {uses : List (Use α)} (hv : Valid out uses)
    (h : out.Nodup) : (outAfter out uses).Nodup := by
  induction uses generalizing out with
  | nil => exact h
  | cons u rest ih => exact ih hv.2 (u.nodup_after hv.1 h)

/-- A history is valid when its first part is and the rest is from what
that leaves out. -/
theorem valid_append {uses rest : List (Use α)} :
    Valid out (uses ++ rest)
      ↔ Valid out uses ∧ Valid (outAfter out uses) rest := by
  induction uses generalizing out with
  | nil => exact ⟨fun h => ⟨trivial, h⟩, fun h => h.2⟩
  | cons u uses ih =>
      show u.Ok out ∧ Valid (u.after out) (uses ++ rest) ↔ _
      rw [ih]
      exact and_assoc.symm

/-- What is not out and not taken stays in. -/
theorem not_mem_outAfter {uses : List (Use α)} (hx : x ∉ out)
    (hnot : .take x ∉ uses) : x ∉ outAfter out uses := by
  induction uses generalizing out with
  | nil => exact hx
  | cons u rest ih =>
      have hrest : .take x ∉ rest := fun h => hnot (List.mem_cons_of_mem _ h)
      refine ih (fun hmem => ?_) hrest
      cases u with
      | take y =>
          rcases List.mem_cons.mp hmem with rfl | hmem
          · exact hnot List.mem_cons_self
          · exact hx hmem
      | read y => exact hx hmem
      | give y => exact hx (List.mem_of_mem_erase hmem)

/-- Between giving a resource back and any later reading or giving back
of it, it was taken again. -/
theorem Valid.taken_between {pre mid post : List (Use α)} {u : Use α}
    (hv : Valid out (pre ++ .give x :: (mid ++ u :: post))) (h : out.Nodup)
    (hu : u = .read x ∨ u = .give x) : .take x ∈ mid := by
  obtain ⟨hpre, -, hlater⟩ := valid_append.mp hv
  obtain ⟨-, hok, -⟩ := valid_append.mp hlater
  by_contra hnot
  have hin := not_mem_outAfter
    ((nodup_outAfter hpre h).not_mem_erase (a := x)) hnot
  rcases hu with rfl | rfl
  · exact hin hok
  · exact hin hok

end Kit.Lease
