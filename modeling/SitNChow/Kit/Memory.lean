/-
A memory of cells numbered from 0: lists written to it, and its first
cells read as a list.

What `store` writes behind the first `n` cells leaves them as they are
(`load_store_of_le`), and a list written right behind them is appended
to them (`load_store`). Two lists written one behind the other are one
list written (`store_append`).
-/
import Mathlib.Data.List.Infix
import Mathlib.Data.List.Range
import Mathlib.Tactic.Common

namespace Kit

universe u

variable {α : Type u}

/-- The memory with a list written from `dst` on. -/
def store (m : Nat → α) (dst : Nat) : List α → Nat → α
  | [] => m
  | x :: xs => store (fun pos => if pos = dst then x else m pos) (dst + 1) xs

/-- The first `n` cells. -/
def load (m : Nat → α) (n : Nat) : List α := (List.range n).map m

variable {m m' : Nat → α} {dst pos n : Nat} {xs ys : List α}

/-- As many bytes as asked for. -/
@[simp] theorem length_load : (load m n).length = n := by
  simp [load]

/-- One byte more is read at the end. -/
theorem load_succ : load m (n + 1) = load m n ++ [m n] := by
  simp [load, List.range_succ]

/-- Only the bytes read matter. -/
theorem load_congr (h : ∀ pos < n, m pos = m' pos) : load m n = load m' n :=
  List.map_congr_left fun pos hpos => h pos (List.mem_range.mp hpos)

/-- The cells before the list are untouched. -/
theorem store_of_lt (h : pos < dst) : store m dst xs pos = m pos := by
  induction xs generalizing m dst with
  | nil => rfl
  | cons x xs ih =>
      rw [store, ih (Nat.lt_succ_of_lt h), if_neg (Nat.ne_of_lt h)]

/-- Two blocks in a row are stored one behind the other. -/
theorem store_append :
    store m dst (xs ++ ys) = store (store m dst xs) (dst + xs.length) ys := by
  induction xs generalizing m dst with
  | nil => rfl
  | cons x xs ih =>
      show store _ (dst + 1) (xs ++ ys) = store (store _ (dst + 1) xs) _ ys
      rw [ih, List.length_cons, Nat.add_assoc, Nat.add_comm 1]

/-- What is written behind the first `n` cells leaves them alone. -/
theorem load_store_of_le (h : n ≤ dst) : load (store m dst xs) n = load m n :=
  load_congr fun _ hpos => store_of_lt (Nat.lt_of_lt_of_le hpos h)

/-- A list written right behind the first `n` cells is appended to
them. -/
theorem load_store :
    load (store m n xs) (n + xs.length) = load m n ++ xs := by
  induction xs using List.reverseRecOn with
  | nil => simp [store]
  | append_singleton xs x ih =>
      have hlen : n + (xs ++ [x]).length = n + xs.length + 1 := by simp; omega
      rw [hlen, load_succ, store_append, load_store_of_le (Nat.le_refl _), ih]
      simp [store]

end Kit
