/-
Messages that are sent in frames: a first frame with the kind of the
message, further ones with opcode 0, and the flag `fin` in the last.
Between them there may be frames of control, with opcodes from 8 on.

# Reading

A reader puts the frames together again and gives up on one that is out of
its turn. `Assembled` says that it has not, and what it has: the messages
that are complete, and the one that is begun. There is one rule for each
kind of frame that may come next.
-/
import Mathlib.Tactic.Common

namespace Kit.Fragments

universe u

variable {α : Type u}

structure Frame (α : Type u) where
  opcode : Nat
  fin : Bool
  payload : List α
deriving DecidableEq

def Frame.isControl (f : Frame α) : Bool := decide (8 ≤ f.opcode)

structure Message (α : Type u) where
  opcode : Nat
  payload : List α
deriving DecidableEq

/-- The messages that are complete, and the one that is not. -/
structure Reader (α : Type u) where
  complete : List (Message α)
  begun : Option (Message α)
deriving DecidableEq

/-- A message goes on, or comes to its end. -/
def Reader.put (r : Reader α) (fin : Bool) (m : Message α) : Reader α :=
  if fin = true then ⟨r.complete ++ [m], none⟩ else ⟨r.complete, some m⟩

/-- The next frame. -/
def Reader.read (r : Reader α) (f : Frame α) : Option (Reader α) :=
  if f.isControl = true then if f.fin = true then some r else none
  else
    match r.begun with
    | none =>
        if f.opcode = 0 then none
        else some (r.put f.fin ⟨f.opcode, f.payload⟩)
    | some m =>
        if f.opcode = 0 then
          some (r.put f.fin ⟨m.opcode, m.payload ++ f.payload⟩)
        else none

def Reader.readAll (r : Reader α) : List (Frame α) → Option (Reader α)
  | [] => some r
  | f :: frames =>
      match r.read f with
      | some r' => r'.readAll frames
      | none => none

/-- A further frame is read in the state the others have led to. -/
theorem Reader.readAll_concat {r r' : Reader α} {frames : List (Frame α)}
    (h : r.readAll frames = some r') (f : Frame α) :
    r.readAll (frames ++ [f]) = r'.read f := by
  induction frames generalizing r with
  | nil =>
      obtain rfl := Option.some.inj h
      show r.readAll [f] = r.read f
      rw [Reader.readAll]
      cases r.read f with
      | none => rfl
      | some r' => rfl
  | cons g frames ih =>
      rw [List.cons_append]
      rw [Reader.readAll] at h ⊢
      split at h
      next r₁ hg => exact ih h
      next => cases h

/-- The frames are in turn, and make up these messages. -/
def Assembled (frames : List (Frame α)) (complete : List (Message α))
    (begun : Option (Message α)) : Prop :=
  (Reader.mk [] none).readAll frames = some ⟨complete, begun⟩

variable {frames : List (Frame α)} {complete : List (Message α)}
  {begun : Option (Message α)} {m : Message α} {f : Frame α}

/-- No frames, no messages. -/
theorem assembled_nil : Assembled ([] : List (Frame α)) [] none := rfl

/-- A control frame may come between the frames of a message. -/
theorem Assembled.control (h : Assembled frames complete begun)
    (hf : 8 ≤ f.opcode) (hfin : f.fin = true) :
    Assembled (frames ++ [f]) complete begun := by
  have hcontrol : f.isControl = true := decide_eq_true hf
  rw [Assembled, Reader.readAll_concat h, Reader.read, if_pos hcontrol,
    if_pos hfin]

/-- A frame with an opcode begins a message, and ends it if it is final. -/
theorem Assembled.first (h : Assembled frames complete none)
    (hpos : f.opcode ≠ 0) (hlt : f.opcode < 8) :
    Assembled (frames ++ [f])
      (if f.fin = true then complete ++ [⟨f.opcode, f.payload⟩] else complete)
      (if f.fin = true then none else some ⟨f.opcode, f.payload⟩) := by
  have hno : ¬ f.isControl = true := fun hc => by
    have := of_decide_eq_true hc
    omega
  rw [Assembled, Reader.readAll_concat h, Reader.read, if_neg hno]
  dsimp only
  rw [if_neg hpos, Reader.put]
  split
  next => rfl
  next => rfl

/-- A continuation frame goes on with it, and ends it if it is final. -/
theorem Assembled.next (h : Assembled frames complete (some m))
    (hzero : f.opcode = 0) :
    Assembled (frames ++ [f])
      (if f.fin = true then complete ++ [⟨m.opcode, m.payload ++ f.payload⟩]
        else complete)
      (if f.fin = true then none
        else some ⟨m.opcode, m.payload ++ f.payload⟩) := by
  have hno : ¬ f.isControl = true := fun hc => by
    have := of_decide_eq_true hc
    omega
  rw [Assembled, Reader.readAll_concat h, Reader.read, if_neg hno]
  dsimp only
  rw [if_pos hzero, Reader.put]
  split
  next => rfl
  next => rfl

end Kit.Fragments
