/-
A window on the latest entries of a log: `n + 1` cells, of which the
first `n` are filled one after another. From then on an entry goes into
the last cell, is compared with the first, and all cells move down by
one.

The first cells always hold the latest entries in their order
(`Holds.fill`, `Holds.slide`), so the first cell, when the window is
full, is the entry `n` before the one that comes in (`Holds.first`).
-/
import Mathlib.Data.List.Basic
import Mathlib.Tactic.Common

namespace Kit.Window

universe u

variable {α : Type u} {n k : Nat} {w log : List α} {x : α}

/-- The latest `n` entries of a log. -/
def latest (n : Nat) (log : List α) : List α := log.drop (log.length - n)

/-- The first `k` cells are in use, and hold the latest entries. -/
structure Holds (n : Nat) (w : List α) (k : Nat) (log : List α) : Prop where
  size : w.length = n + 1
  count : k = min n log.length
  cells : w.take k = latest n log

/-- All cells move down by one; the last keeps its entry. -/
def slide (n : Nat) (w : List α) : List α := w.tail ++ w.drop n

theorem holds_nil (h : w.length = n + 1) : Holds n w 0 [] where
  size := h
  count := (Nat.min_zero n).symm
  cells := List.drop_nil.symm

theorem Holds.le (h : Holds n w k log) : k ≤ n := by
  rw [h.count]
  exact Nat.min_le_left _ _

/-- The cells in use and the one behind them, when it is written. -/
theorem take_set_succ (h : k < w.length) :
    (w.set k x).take (k + 1) = w.take k ++ [x] := by
  have hk : k < (w.set k x).length := by
    rw [List.length_set]
    exact h
  rw [← List.take_append_getElem hk, List.take_set_of_le (Nat.le_refl _),
    List.getElem_set_self]

/-- While there is room an entry is put behind the others. -/
theorem Holds.fill (h : Holds n w k log) (hk : k < n) (x : α) :
    Holds n (w.set k x) (k + 1) (log ++ [x]) := by
  have hlen : log.length = k := by
    have := h.count
    omega
  have hcells : w.take k = log := by
    rw [h.cells]
    unfold latest
    rw [Nat.sub_eq_zero_of_le (by omega), List.drop_zero]
  refine ⟨?_, ?_, ?_⟩
  · rw [List.length_set]
    exact h.size
  · rw [List.length_append, List.length_singleton]
    omega
  · have hall : (log ++ [x]).length - n = 0 := by
      rw [List.length_append, List.length_singleton]
      omega
    rw [take_set_succ (by rw [h.size]; omega), hcells]
    unfold latest
    rw [hall, List.drop_zero]

/-- The first cell of a full window. -/
theorem Holds.first (h : Holds n w n log) (hn : 0 < n) :
    w[0]? = log[log.length - n]? := by
  rw [← List.getElem?_take_of_lt hn, h.cells]
  unfold latest
  rw [List.getElem?_drop, Nat.add_zero]

/-- A full window takes an entry in and moves on. -/
theorem Holds.slide (h : Holds n w n log) (hn : 0 < n) (x : α) :
    Holds n (slide n (w.set n x)) n (log ++ [x]) := by
  have hlen : n ≤ log.length := by
    have := h.count
    omega
  have hfull : w.set n x = w.take n ++ [x] := by
    have htake : (w.set n x).take (n + 1) = w.set n x := by
      refine List.take_of_length_le (Nat.le_of_eq ?_)
      rw [List.length_set, h.size]
    rw [← htake]
    exact take_set_succ (by rw [h.size]; omega)
  have hne : w.take n ≠ [] := by
    have hsize : (w.take n).length = n := by
      rw [List.length_take, h.size]
      omega
    intro hnil
    rw [hnil, List.length_nil] at hsize
    omega
  have htail : (w.set n x).tail = (w.take n).tail ++ [x] := by
    rw [hfull, List.tail_append_of_ne_nil hne]
  have hsize : (w.set n x).tail.length = n := by
    rw [List.length_tail, List.length_set, h.size]
    omega
  refine ⟨?_, ?_, ?_⟩
  · unfold Window.slide
    rw [List.length_append, hsize, List.length_drop, List.length_set, h.size]
    omega
  · rw [List.length_append, List.length_singleton]
    omega
  · have hdrop : (log ++ [x]).length - n = log.length - n + 1 := by
      rw [List.length_append, List.length_singleton]
      omega
    unfold Window.slide
    rw [List.take_left' hsize, htail, h.cells]
    unfold latest
    rw [hdrop, List.drop_append_of_le_length (by omega), List.tail_drop]

end Kit.Window
