/-
An allocated block of cells: checked writes, growth, and the text before
a terminator; and capacities that double.

A block is the list of its cells, so its capacity is its length. `write`
fails where it would leave the block. `grow` is `realloc` to a larger
size: the new cells hold anything. What is written behind the first `n`
cells is appended to them (`take_write`), and a terminator behind them
ends the text there (`textOf_of_take`). `front` is a block on the way from
one content to another.

A capacity that starts at `c` and doubles takes the values `doubled c k`;
going from `n` to `n'` cells `Crosses` one of them exactly when it is
outgrown (`crosses_iff`).
-/
import Mathlib.Data.List.TakeWhile
import Mathlib.Tactic.Common

namespace Kit

universe u

variable {α : Type u}

namespace Block

/-- Write a list into a block from `dst` on; `none` when that leaves the
block. -/
def write (b : List α) (dst : Nat) (xs : List α) : Option (List α) :=
  if dst + xs.length ≤ b.length then
    some (b.take dst ++ xs ++ b.drop (dst + xs.length))
  else none

/-- Grow a block to `n` cells; the new ones hold what `fresh` says. -/
def grow (b : List α) (n : Nat) (fresh : Nat → α) : List α :=
  b ++ (List.range (n - b.length)).map fresh

/-- The cells before the first terminator. -/
def textOf [BEq α] (z : α) (b : List α) : List α := b.takeWhile (· != z)

variable {b b' xs ys : List α} {dst n k : Nat} {fresh : Nat → α}

theorem write_of_le (h : dst + xs.length ≤ b.length) :
    write b dst xs = some (b.take dst ++ xs ++ b.drop (dst + xs.length)) :=
  if_pos h

theorem exists_write (h : dst + xs.length ≤ b.length) :
    ∃ b', write b dst xs = some b' :=
  ⟨_, write_of_le h⟩

theorem le_of_write (h : write b dst xs = some b') :
    dst + xs.length ≤ b.length := by
  by_contra hlong
  rw [write, if_neg hlong] at h
  cases h

/-- A write keeps the block's size. -/
theorem length_write (h : write b dst xs = some b') : b'.length = b.length := by
  have hle := le_of_write h
  rw [write_of_le hle] at h
  rw [← Option.some.inj h]
  simp only [List.length_append, List.length_take, List.length_drop]
  omega

/-- A write goes right behind the cells before it. -/
theorem take_write (h : write b dst xs = some b') :
    b'.take (dst + xs.length) = b.take dst ++ xs := by
  have hle := le_of_write h
  have hlen : (b.take dst ++ xs).length = dst + xs.length := by
    simp only [List.length_append, List.length_take]
    omega
  rw [write_of_le hle] at h
  rw [← Option.some.inj h, ← hlen, List.take_left]

/-- A list written at the start of the unused cells of a block. -/
theorem write_replicate (xs : List α) (z : α) (h : ys.length ≤ k) :
    write (xs ++ List.replicate k z) xs.length ys
      = some (xs ++ ys ++ List.replicate (k - ys.length) z) := by
  have hle : xs.length + ys.length ≤ (xs ++ List.replicate k z).length := by
    simpa using h
  rw [write_of_le hle, List.take_left, ← List.drop_drop, List.drop_left,
    List.drop_replicate]

/-- The same, and one of the cells behind the list written once more. -/
theorem write_closed (xs : List α) (z : α) (h : ys.length < k) :
    ∃ b, write (xs ++ List.replicate k z) xs.length ys = some b
      ∧ write b (xs.length + ys.length) [z]
        = some (xs ++ ys ++ List.replicate (k - ys.length) z) := by
  refine ⟨_, write_replicate xs z (Nat.le_of_lt h), ?_⟩
  obtain ⟨n, hn⟩ := Nat.exists_eq_succ_of_ne_zero (Nat.sub_ne_zero_of_lt h)
  have hone : [z].length ≤ n.succ := by simp
  rw [← List.length_append, hn, write_replicate (xs ++ ys) z hone,
    List.replicate_succ]
  simp

theorem length_grow (h : b.length ≤ n) : (grow b n fresh).length = n := by
  simp only [grow, List.length_append, List.length_map, List.length_range]
  omega

theorem take_grow (h : k ≤ b.length) : (grow b n fresh).take k = b.take k :=
  List.take_append_of_le_length h

theorem textOf_append_cons [BEq α] [LawfulBEq α] (z : α) :
    textOf z (xs ++ z :: ys) = textOf z xs := by
  induction xs with
  | nil => simp [textOf]
  | cons x xs ih =>
      unfold textOf at *
      by_cases hx : x = z
      · simp [hx]
      · simpa [hx] using ih

/-- No terminator is in a text. -/
theorem ne_of_mem_textOf [BEq α] [LawfulBEq α] {z x : α} (hx : x ∈ textOf z xs) :
    x ≠ z := by
  have hbne : (x != z) = true := List.mem_takeWhile_imp (p := (· != z)) hx
  exact bne_iff_ne.mp hbne

/-- Without a terminator among them, all cells are the text. -/
theorem textOf_eq_self [BEq α] [LawfulBEq α] {z : α} (h : ∀ x ∈ xs, x ≠ z) :
    textOf z xs = xs := by
  refine List.takeWhile_eq_self_iff.mpr ?_
  intro x hx
  exact bne_iff_ne.mpr (h x hx)

/-- The text of a block whose first cells are closed by a terminator. -/
theorem textOf_of_take [BEq α] [LawfulBEq α] {z : α}
    (h : b.take (n + 1) = xs ++ [z]) : textOf z b = textOf z xs := by
  rw [← List.take_append_drop (n + 1) b, h, List.append_assoc]
  exact textOf_append_cons z

/-- A block that is being overwritten from its front: `n` cells hold the
new contents, the others still the old ones. -/
def front (xs ys : List α) (n : Nat) : List α := xs.take n ++ ys.drop n

theorem front_zero : front xs ys 0 = ys := rfl

theorem front_length (hlen : xs.length = ys.length) :
    front xs ys xs.length = xs := by
  unfold front
  rw [List.take_length, hlen, List.drop_length, List.append_nil]

/-- One more cell. -/
theorem set_front (h : n < xs.length) (hlen : xs.length = ys.length) :
    (front xs ys n).set n xs[n] = front xs ys (n + 1) := by
  have hys : n < ys.length := hlen ▸ h
  have htake : (xs.take n).length = n := List.length_take_of_le (Nat.le_of_lt h)
  unfold front
  rw [List.set_append_right n _ (Nat.le_of_eq htake), htake, Nat.sub_self,
    List.drop_eq_getElem_cons hys, List.set_cons_zero,
    ← List.take_append_getElem h, List.append_assoc]
  rfl

end Block

-- ==================================================== doubling capacities

/-- A capacity of `c`, doubled `k` times. -/
def doubled (c : Nat) : Nat → Nat
  | 0 => c
  | k + 1 => doubled c k * 2

/-- Between `n` and `n'` cells one of the capacities is outgrown. -/
def Crosses (c n n' : Nat) : Prop := ∃ k, n < doubled c k ∧ doubled c k ≤ n'

variable {c n n' j k : Nat}

theorem doubled_mono (c : Nat) (h : j ≤ k) : doubled c j ≤ doubled c k := by
  induction h with
  | refl => exact Nat.le_refl _
  | step _ ih =>
      show _ ≤ doubled c _ * 2
      omega

/-- At the smallest capacity that holds `n` cells: it is the one outgrown,
if any is. -/
theorem crosses_iff (hn : n < doubled c k) (hmin : ∀ j < k, doubled c j ≤ n) :
    Crosses c n n' ↔ doubled c k ≤ n' := by
  refine ⟨fun ⟨j, hj, hle⟩ => ?_, fun h => ⟨k, hn, h⟩⟩
  by_cases hjk : j < k
  · exact absurd hj (Nat.not_lt_of_le (hmin j hjk))
  · exact (doubled_mono c (Nat.le_of_not_lt hjk)).trans hle

end Kit
