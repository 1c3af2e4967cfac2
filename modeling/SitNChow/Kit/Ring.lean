/-
A memory that is written round and round.

It holds the latest entries of what was written, as many as it has cells
(`Holds.write`), so a block of them can be read as long as the writer has
not come round to it again (`Holds.block`).
-/
import Mathlib.Data.List.Basic
import Mathlib.Logic.Function.Basic

namespace Kit.Ring

universe u

variable {α : Type u} {size n : Nat} {buf : Nat → α} {log : List α} {b : α}

/-- The entry after `n` others is written. -/
def write (size n : Nat) (b : α) (buf : Nat → α) : Nat → α :=
  Function.update buf (n % size) b

/-- The cells hold the latest entries. -/
def Holds (size : Nat) (buf : Nat → α) (log : List α) : Prop :=
  ∀ p (h : p < log.length), log.length ≤ p + size → buf (p % size) = log[p]

/-- An empty log is held by any buffer. -/
theorem holds_nil : Holds size buf [] :=
  fun _ h => absurd h (Nat.not_lt_zero _)

/-- The next element is written over the one `size` before it. -/
theorem Holds.write (h : Holds size buf log) (b : α) :
    Holds size (write size log.length b buf) (log ++ [b]) := by
  intro p hp hlate
  rw [List.length_append, List.length_singleton] at hp hlate
  rw [Ring.write]
  by_cases hlast : p = log.length
  · subst hlast
    rw [Function.update_self, List.getElem_concat_length rfl]
  · have hlt : p < log.length := by omega
    have hne : p % size ≠ log.length % size := by
      intro he
      have hdvd : size ∣ log.length - p :=
        Nat.dvd_of_mod_eq_zero (Nat.sub_mod_eq_zero_of_mod_eq he.symm)
      have hle := Nat.le_of_dvd (by omega) hdvd
      omega
    rw [Function.update_of_ne hne, List.getElem_append_left hlt]
    exact h p hlt (by omega)

/-- `n` cells from that of entry `start` on. -/
def block (size : Nat) (buf : Nat → α) (start n : Nat) : List α :=
  (List.range n).map fun i => buf ((start + i) % size)

/-- A block that is not yet overwritten is read as it was logged. -/
theorem Holds.block {start : Nat} (h : Holds size buf log)
    (hin : start + n ≤ log.length) (hlate : log.length ≤ start + size) :
    block size buf start n = (log.drop start).take n := by
  have hlen : ((log.drop start).take n).length = n := by
    rw [List.length_take, List.length_drop]
    omega
  refine List.ext_getElem ?_ fun i hi hi' => ?_
  · rw [Ring.block, List.length_map, List.length_range, hlen]
  · rw [hlen] at hi'
    simp only [Ring.block, List.getElem_map, List.getElem_range,
      List.getElem_take, List.getElem_drop]
    exact h (start + i) (by omega) (by omega)

/-- A block that starts at a multiple of its length has its cells in
line. -/
theorem block_eq {k cnt : Nat} (hn : 0 < n) :
    block (cnt * n) buf (k * n) n
      = (List.range n).map fun i => buf (k % cnt * n + i) := by
  refine List.map_congr_left fun i hi => ?_
  have hi := List.mem_range.mp hi
  rw [Nat.mul_comm cnt n, Nat.mod_mul, Nat.mul_comm k n, Nat.mul_add_mod,
    Nat.mod_eq_of_lt hi, Nat.mul_add_div hn, Nat.div_eq_of_lt hi,
    Nat.add_zero, Nat.add_comm i, Nat.mul_comm n]

end Kit.Ring
