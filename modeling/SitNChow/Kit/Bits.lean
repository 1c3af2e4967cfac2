/-
Bit strings, most significant bit first: a number written with a given
number of bits and read back, the bits of a list of bytes, and the byte
stuffing that keeps a marker byte out of a coded stream.
-/
import Mathlib.Data.List.Basic
import Mathlib.Data.Nat.Bitwise
import Mathlib.Tactic.Common

namespace Kit.Bits

-- ======================================================= numbers as bits

/-- The `len` low bits of a number. -/
def bitsOf (n : Nat) : Nat → List Bool
  | 0 => []
  | len + 1 => n.testBit len :: bitsOf n len

/-- The number a bit string spells, read behind the bits of `d`. -/
def readOn (d : Nat) (bs : List Bool) : Nat :=
  bs.foldl (fun d b => 2 * d + b.toNat) d

/-- The number a bit string spells. -/
def ofBits (bs : List Bool) : Nat := readOn 0 bs

variable {n d len : Nat} {b : Bool} {bs cs : List Bool}

@[simp] theorem readOn_nil : readOn d [] = d := rfl

/-- A bit doubles the number read so far and is added. -/
@[simp] theorem readOn_cons :
    readOn d (b :: bs) = readOn (2 * d + b.toNat) bs := rfl

/-- Reading goes on where it has stopped. -/
@[simp] theorem readOn_append :
    readOn d (bs ++ cs) = readOn (readOn d bs) cs := List.foldl_append

/-- As many bits as asked for. -/
@[simp] theorem length_bitsOf : (bitsOf n len).length = len := by
  induction len with
  | zero => rfl
  | succ len ih => rw [bitsOf, List.length_cons, ih]

/-- A bit is determined by its number. -/
theorem toNat_inj {b c : Bool} (h : b.toNat = c.toNat) : b = c := by
  cases b <;> cases c <;> simp_all

/-- The top one of `len + 1` bits, and the number without it. -/
theorem div_pow_succ (n len : Nat) :
    n / 2 ^ len = 2 * (n / 2 ^ (len + 1)) + (n.testBit len).toNat := by
  rw [Nat.toNat_testBit, Nat.pow_succ, ← Nat.div_div_eq_div_mul]
  omega

/-- Reading the low bits behind the high ones gives the number. -/
theorem readOn_bitsOf (n len : Nat) :
    readOn (n / 2 ^ len) (bitsOf n len) = n := by
  induction len with
  | zero => rw [bitsOf, readOn_nil, Nat.pow_zero, Nat.div_one]
  | succ len ih => rw [bitsOf, readOn_cons, ← div_pow_succ, ih]

/-- A number below `2 ^ len` is read back from its `len` bits. -/
theorem ofBits_bitsOf (h : n < 2 ^ len) : ofBits (bitsOf n len) = n := by
  have h0 : n / 2 ^ len = 0 := Nat.div_eq_of_lt h
  have := readOn_bitsOf n len
  rwa [h0] at this

/-- What has been read is shifted by the bits that follow. -/
theorem readOn_eq (d : Nat) (bs : List Bool) :
    readOn d bs = d * 2 ^ bs.length + ofBits bs := by
  induction bs generalizing d with
  | nil => simp [ofBits]
  | cons b bs ih =>
      unfold ofBits
      rw [readOn_cons, readOn_cons, ih, ih (2 * 0 + b.toNat),
        List.length_cons, Nat.pow_succ, ← Nat.add_assoc, Nat.mul_zero,
        Nat.zero_add, Nat.add_mul]
      congr 2
      rw [Nat.mul_comm 2 d, Nat.mul_assoc, Nat.mul_comm 2]

/-- The bits in front count by the length of those behind. -/
theorem ofBits_append :
    ofBits (bs ++ cs) = ofBits bs * 2 ^ cs.length + ofBits cs := by
  unfold ofBits
  rw [readOn_append, readOn_eq]
  rfl

/-- The first bit counts by the length of the others. -/
theorem ofBits_cons :
    ofBits (b :: bs) = b.toNat * 2 ^ bs.length + ofBits bs := by
  unfold ofBits
  rw [readOn_cons, readOn_eq, Nat.mul_zero, Nat.zero_add]
  rfl

/-- A bit string of length `n` spells a number below `2 ^ n`. -/
theorem ofBits_lt (bs : List Bool) : ofBits bs < 2 ^ bs.length := by
  induction bs with
  | nil => exact Nat.one_pos
  | cons b bs ih =>
      have hb : b.toNat * 2 ^ bs.length ≤ 1 * 2 ^ bs.length :=
        Nat.mul_le_mul_right _ (Bool.toNat_le b)
      rw [ofBits_cons, List.length_cons, Nat.pow_succ]
      omega

/-- The first bit is the top one of the number. -/
theorem testBit_ofBits_cons :
    (ofBits (b :: bs)).testBit bs.length = b := by
  apply toNat_inj
  rw [Nat.toNat_testBit, ofBits_cons, Nat.mul_comm,
    Nat.mul_add_div (Nat.two_pow_pos _), Nat.div_eq_of_lt (ofBits_lt bs),
    Nat.add_zero]
  exact Nat.mod_eq_of_lt (Bool.toNat_lt b)

/-- Bits above the ones that are written do not matter. -/
theorem bitsOf_add_mul (n a len : Nat) :
    ∀ k, k ≤ len → bitsOf (a * 2 ^ len + n) k = bitsOf n k
  | 0, _ => rfl
  | k + 1, hk => by
      have h : a * 2 ^ len + n = 2 ^ k * (2 * (a * 2 ^ (len - (k + 1)))) + n := by
        have : 2 ^ len = 2 ^ k * (2 * 2 ^ (len - (k + 1))) := by
          rw [← Nat.mul_assoc, ← Nat.pow_succ, ← Nat.pow_add]
          congr 1
          omega
        rw [this, Nat.mul_left_comm, Nat.mul_left_comm a 2]
      rw [bitsOf, bitsOf, bitsOf_add_mul n a len k (by omega), h,
        Nat.testBit_mul_two_pow_add_eq]
      simp

/-- A bit string is what its number is written as. -/
theorem bitsOf_ofBits (bs : List Bool) :
    bitsOf (ofBits bs) bs.length = bs := by
  induction bs with
  | nil => rfl
  | cons b bs ih =>
      rw [List.length_cons, bitsOf, testBit_ofBits_cons, ofBits_cons,
        bitsOf_add_mul _ _ _ _ (Nat.le_refl _), ih]

-- ======================================================== bytes as bits

/-- The bits of a list of bytes. -/
def toBits (bytes : List UInt8) : List Bool :=
  bytes.flatMap fun b => bitsOf b.toNat 8

@[simp] theorem toBits_nil : toBits [] = [] := rfl

/-- Bytes are eight bits each, one behind the other. -/
@[simp] theorem toBits_cons (b : UInt8) (bytes : List UInt8) :
    toBits (b :: bytes) = bitsOf b.toNat 8 ++ toBits bytes := rfl

/-- The bits of bytes in a row are in a row. -/
@[simp] theorem toBits_append (xs ys : List UInt8) :
    toBits (xs ++ ys) = toBits xs ++ toBits ys := List.flatMap_append

-- ============================================================= stuffing

/-- A zero byte behind every byte 0xFF. -/
def stuff (bytes : List UInt8) : List UInt8 :=
  bytes.flatMap fun b => if b = 0xFF then [b, 0] else [b]

@[simp] theorem stuff_nil : stuff [] = [] := rfl

/-- Behind a byte of ones a zero is stuffed. -/
theorem stuff_cons (b : UInt8) (bytes : List UInt8) :
    stuff (b :: bytes)
      = (if b = 0xFF then [b, 0] else [b]) ++ stuff bytes := rfl

/-- Bytes are stuffed one by one. -/
@[simp] theorem stuff_append (xs ys : List UInt8) :
    stuff (xs ++ ys) = stuff xs ++ stuff ys := List.flatMap_append

end Kit.Bits
