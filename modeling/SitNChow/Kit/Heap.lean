/-
A heap of allocated blocks: a pointer names a block or a block that was
freed, never a later one.

`alloc` hands out pointers in order, so a stale pointer stays
recognisable: reading it gives nothing and writing through it changes
nothing. The rules say what each operation leaves of the other blocks.
-/

namespace Kit

universe u

/-- Pointers to allocated blocks. -/
abbrev Ptr := Nat

/-- The contents of the allocated blocks, and the next pointer. -/
structure Heap (α : Type u) where
  get : Ptr → Option α
  next : Ptr

namespace Heap

variable {α : Type u} {a b : α} {p q : Ptr}

/-- No block allocated. -/
def empty : Heap α := { get := fun _ => none, next := 0 }

/-- Allocate a block; its pointer is the old `next`. -/
def alloc (a : α) (h : Heap α) : Heap α where
  get := fun q => if q = h.next then some a else h.get q
  next := h.next + 1

/-- Free a block. -/
def free (p : Ptr) (h : Heap α) : Heap α :=
  { h with get := fun q => if q = p then none else h.get q }

/-- Write a block; nothing happens through a stale pointer. -/
def write (p : Ptr) (a : α) (h : Heap α) : Heap α :=
  { h with get := fun q =>
      if q = p then (h.get p).map fun _ => a else h.get q }

variable (h : Heap α)

@[simp] theorem alloc_next : (h.alloc a).next = h.next + 1 := rfl

/-- What is allocated is found at the next pointer. -/
@[simp] theorem get_alloc_self : (h.alloc a).get h.next = some a :=
  if_pos rfl

/-- An allocation leaves the older blocks alone. -/
theorem get_alloc_of_lt (hq : q < h.next) : (h.alloc a).get q = h.get q :=
  if_neg (Nat.ne_of_lt hq)

/-- So does a free of another block. -/
theorem get_free_ne (hq : q ≠ p) : (h.free p).get q = h.get q := if_neg hq

/-- So does a write to another block. -/
theorem get_write_ne (hq : q ≠ p) : (h.write p a).get q = h.get q := if_neg hq

/-- A write to a live block is found there. -/
theorem get_write_self (hp : h.get p = some b) :
    (h.write p a).get p = some a := by
  simp [write, hp]

end Heap

end Kit
