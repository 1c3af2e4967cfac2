/-
Canonical prefix codes: the code words of one length are consecutive
numbers, and the first one of the next length is twice the number behind
the last. A code is given by how many words it has of each length.

`entry` is the word of an index, `decode` finds the index again: it takes
one bit after another and looks whether what it has read is one of the
words of that length. A longer word is never one of them, as its top bits
lie behind the last word of every shorter length (`entry_lower`), so the
first hit is the word that was written (`decode_entry`).
-/
import SitNChow.Kit.Bits

namespace Kit.PrefixCode

open Bits

/-- Length and code word of an index. `first` is the first word of the
length `len`, of which there are as many as the list's head says. -/
def entry : List Nat → (first len p : Nat) → Option (Nat × Nat)
  | [], _, _, _ => none
  | c :: cs, first, len, p =>
      if p < c then some (len, first + p)
      else entry cs (2 * (first + c)) (len + 1) (p - c)

/-- The words of every length fit into that many bits. -/
def Fits : List Nat → (first len : Nat) → Prop
  | [], _, _ => True
  | c :: cs, first, len =>
      first + c ≤ 2 ^ len ∧ Fits cs (2 * (first + c)) (len + 1)

instance decidableFits :
    ∀ cs first len, Decidable (Fits cs first len)
  | [], _, _ => isTrue trivial
  | c :: cs, first, len =>
      have := decidableFits cs (2 * (first + c)) (len + 1)
      inferInstanceAs (Decidable (_ ∧ _))

/-- The index of the word at the front of a bit string, and the bits
behind it. `d` is what was read of the word so far, `k` the index of the
word `first`. -/
def decode : List Nat → (first d k : Nat) → List Bool →
    Option (Nat × List Bool)
  | [], _, _, _, _ => none
  | _ :: _, _, _, _, [] => none
  | c :: cs, first, d, k, b :: bs =>
      let d := 2 * d + b.toNat
      if first ≤ d ∧ d < first + c then some (k + (d - first), bs)
      else decode cs (2 * (first + c)) d (k + c) bs

variable {cs : List Nat} {first len p l w : Nat}

/-- Every index has a word. -/
theorem entry_isSome (h : p < cs.sum) (first len : Nat) :
    ∃ e, entry cs first len p = some e := by
  induction cs generalizing first len p with
  | nil => exact absurd h (Nat.not_lt_zero p)
  | cons c cs ih =>
      rw [entry]
      split
      next => exact ⟨_, rfl⟩
      next hp =>
        rw [List.sum_cons] at h
        exact ih (by omega) _ _

theorem entry_len (h : entry cs first len p = some (l, w)) :
    len ≤ l ∧ l < len + cs.length := by
  induction cs generalizing first len p with
  | nil => cases h
  | cons c cs ih =>
      rw [entry] at h
      rw [List.length_cons]
      split at h
      next =>
        cases h
        omega
      next =>
        have := ih h
        omega

/-- A word lies behind all words of shorter lengths. -/
theorem entry_lower (h : entry cs first len p = some (l, w)) :
    first * 2 ^ (l - len) ≤ w := by
  induction cs generalizing first len p with
  | nil => cases h
  | cons c cs ih =>
      rw [entry] at h
      split at h
      next =>
        cases h
        rw [Nat.sub_self, Nat.pow_zero, Nat.mul_one]
        exact Nat.le_add_right _ _
      next =>
        have hlen := (entry_len h).1
        have hpow : 2 ^ (l - len) = 2 ^ (l - (len + 1)) * 2 := by
          rw [← Nat.pow_succ]
          congr 1
          omega
        calc first * 2 ^ (l - len)
            = 2 * first * 2 ^ (l - (len + 1)) := by
              rw [hpow, Nat.mul_comm 2 first, Nat.mul_assoc,
                Nat.mul_comm 2]
          _ ≤ 2 * (first + c) * 2 ^ (l - (len + 1)) :=
              Nat.mul_le_mul_right _ (by omega)
          _ ≤ w := ih h

theorem entry_lt (hf : Fits cs first len)
    (h : entry cs first len p = some (l, w)) : w < 2 ^ l := by
  induction cs generalizing first len p with
  | nil => cases h
  | cons c cs ih =>
      obtain ⟨hc, hf⟩ := hf
      rw [entry] at h
      split at h
      next =>
        cases h
        omega
      next => exact ih hf h

/-- What the top bits of a word spell once its next bit is read. -/
theorem readOn_top (h : len < l) :
    2 * (w / 2 ^ (l - len)) + (w.testBit (l - len - 1)).toNat
      = w / 2 ^ (l - (len + 1)) := by
  have hl : l - len = l - (len + 1) + 1 := by omega
  rw [hl, Nat.add_sub_cancel, ← div_pow_succ]

/-- A word that is written is found again, with the bits behind it. -/
theorem decode_entry (h : entry cs first (len + 1) p = some (l, w))
    (k : Nat) (bs : List Bool) :
    decode cs first (w / 2 ^ (l - len)) k (bitsOf w (l - len) ++ bs)
      = some (k + p, bs) := by
  induction cs generalizing first len p k with
  | nil => cases h
  | cons c cs ih =>
      have hl := (entry_len h).1
      have hbits : bitsOf w (l - len)
          = w.testBit (l - len - 1) :: bitsOf w (l - (len + 1)) := by
        have hl : l - len = l - (len + 1) + 1 := by omega
        rw [hl, bitsOf, Nat.add_sub_cancel]
      rw [hbits, List.cons_append, decode]
      simp only [readOn_top (w := w) (show len < l by omega)]
      rw [entry] at h
      split at h
      next hp =>
        cases h
        rw [Nat.sub_self, Nat.pow_zero, Nat.div_one,
          if_pos ⟨Nat.le_add_right _ _, by omega⟩, Nat.add_sub_cancel_left]
        rfl
      next hp =>
        -- the top bits of a longer word lie behind the words of this length
        have hlow := entry_lower h
        have hlen := (entry_len h).1
        have hbeyond : first + c ≤ w / 2 ^ (l - (len + 1)) := by
          rw [Nat.le_div_iff_mul_le (Nat.two_pow_pos _)]
          have hpow : 2 ^ (l - (len + 1)) = 2 * 2 ^ (l - (len + 1 + 1)) := by
            rw [Nat.mul_comm, ← Nat.pow_succ]
            congr 1
            omega
          rw [hpow, ← Nat.mul_assoc, Nat.mul_comm _ 2]
          exact hlow
        rw [if_neg (by omega), ih h (k + c)]
        congr 2
        omega

/-- A word that is written is found from the start of its bits. -/
theorem decode_word (hf : Fits cs 0 1) (h : entry cs 0 1 p = some (l, w))
    (bs : List Bool) : decode cs 0 0 0 (bitsOf w l ++ bs) = some (p, bs) := by
  have hw : w / 2 ^ l = 0 := Nat.div_eq_of_lt (entry_lt hf h)
  have := @decode_entry cs 0 0 p l w h 0 bs
  rwa [Nat.sub_zero, hw, Nat.zero_add] at this

variable {d k : Nat} {bs rest : List Bool}

/-- What stands behind a word does not matter. -/
theorem decode_append (h : decode cs first d k bs = some (p, rest))
    (xs : List Bool) : decode cs first d k (bs ++ xs) = some (p, rest ++ xs) := by
  induction cs generalizing first d k bs with
  | nil => cases h
  | cons c cs ih =>
      cases bs with
      | nil => cases h
      | cons b bs =>
          rw [decode] at h
          rw [List.cons_append, decode]
          split at h
          next hin =>
            cases h
            rw [if_pos hin]
          next hout =>
            rw [if_neg hout]
            exact ih h

/-- As many bits as the longest word has are enough. -/
theorem decode_enough {xs ys : List Bool}
    (h : decode cs first d k (xs ++ ys) = some (p, rest))
    (hlen : cs.length ≤ xs.length) :
    ∃ r, decode cs first d k xs = some (p, r) ∧ rest = r ++ ys := by
  induction cs generalizing first d k xs with
  | nil => cases h
  | cons c cs ih =>
      cases xs with
      | nil => exact absurd hlen (Nat.not_succ_le_zero _)
      | cons x xs =>
          rw [List.cons_append, decode] at h
          rw [decode]
          split at h
          next hin =>
            cases h
            exact ⟨xs, if_pos hin, rfl⟩
          next hout =>
            rw [if_neg hout]
            exact ih h (Nat.le_of_succ_le_succ hlen)

-- ================================================ words and their lengths

/-- The lengths of all words in their order. -/
def lengths : List Nat → (len : Nat) → List Nat
  | [], _ => []
  | c :: cs, len => List.replicate c len ++ lengths cs (len + 1)

/-- All words in their order. -/
def words : List Nat → (first : Nat) → List Nat
  | [], _ => []
  | c :: cs, first =>
      (List.range c).map (first + ·) ++ words cs (2 * (first + c))

@[simp] theorem length_lengths (cs : List Nat) (len : Nat) :
    (lengths cs len).length = cs.sum := by
  induction cs generalizing len with
  | nil => rfl
  | cons c cs ih => simp [lengths, ih]

@[simp] theorem length_words (cs : List Nat) (first : Nat) :
    (words cs first).length = cs.sum := by
  induction cs generalizing first with
  | nil => rfl
  | cons c cs ih => simp [words, ih]

theorem entry_getElem (h : entry cs first len p = some (l, w)) :
    (lengths cs len)[p]? = some l ∧ (words cs first)[p]? = some w := by
  induction cs generalizing first len p with
  | nil => cases h
  | cons c cs ih =>
      rw [entry] at h
      rw [lengths, words]
      split at h
      next hp =>
        cases h
        rw [List.getElem?_append_left (by simpa using hp),
          List.getElem?_append_left (by simpa using hp)]
        exact ⟨by simp [hp], by simp [hp]⟩
      next hp =>
        rw [List.getElem?_append_right (by simpa using hp),
          List.getElem?_append_right (by simpa using hp),
          List.length_replicate, List.length_map, List.length_range]
        exact ih h

end Kit.PrefixCode
