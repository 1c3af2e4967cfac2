/-
The Huffman tables of the JPEG encoder: the standard tables it starts
from, and `compute_huffman_table`, which gives every symbol its code.

The codes are the canonical ones of `Kit.PrefixCode`
(`huffCode_eq_words`), so a symbol with a code is found again from the
bits of that code (`HuffTable.IsCode.decode`); and of every symbol that
the coefficient coder can ask for, the tables have a code
(`acLum_hasCode`, `acChroma_hasCode` and `dc_hasCode`).
-/
import Mathlib.Data.List.GetD
import Mathlib.Data.List.Nodup
import SitNChow.Kit.PrefixCode

namespace SitNChow.Jpeg

open Kit Kit.Bits

-- =============================================== the standard tables

/-- `s_dc_lum_bits`, from the length 1 on -/
def sDcLumBits : List Nat := [0, 1, 5, 1, 1, 1, 1, 1, 1, 0, 0, 0, 0, 0, 0, 0]

/-- `s_dc_lum_val` -/
def sDcLumVal : List Nat := [0, 1, 2, 3, 4, 5, 6, 7, 8, 9, 10, 11]

/-- `s_ac_lum_bits`, from the length 1 on -/
def sAcLumBits : List Nat :=
  [0, 2, 1, 3, 3, 2, 4, 3, 5, 5, 4, 4, 0, 0, 1, 0x7d]

/-- `s_ac_lum_val`, without the zeros behind it -/
def sAcLumVal : List Nat := [
  0x01, 0x02, 0x03, 0x00, 0x04, 0x11, 0x05, 0x12, 0x21, 0x31, 0x41, 0x06,
  0x13, 0x51, 0x61, 0x07, 0x22, 0x71, 0x14, 0x32, 0x81, 0x91, 0xa1, 0x08,
  0x23, 0x42, 0xb1, 0xc1, 0x15, 0x52, 0xd1, 0xf0, 0x24, 0x33, 0x62, 0x72,
  0x82, 0x09, 0x0a, 0x16, 0x17, 0x18, 0x19, 0x1a, 0x25, 0x26, 0x27, 0x28,
  0x29, 0x2a, 0x34, 0x35, 0x36, 0x37, 0x38, 0x39, 0x3a, 0x43, 0x44, 0x45,
  0x46, 0x47, 0x48, 0x49, 0x4a, 0x53, 0x54, 0x55, 0x56, 0x57, 0x58, 0x59,
  0x5a, 0x63, 0x64, 0x65, 0x66, 0x67, 0x68, 0x69, 0x6a, 0x73, 0x74, 0x75,
  0x76, 0x77, 0x78, 0x79, 0x7a, 0x83, 0x84, 0x85, 0x86, 0x87, 0x88, 0x89,
  0x8a, 0x92, 0x93, 0x94, 0x95, 0x96, 0x97, 0x98, 0x99, 0x9a, 0xa2, 0xa3,
  0xa4, 0xa5, 0xa6, 0xa7, 0xa8, 0xa9, 0xaa, 0xb2, 0xb3, 0xb4, 0xb5, 0xb6,
  0xb7, 0xb8, 0xb9, 0xba, 0xc2, 0xc3, 0xc4, 0xc5, 0xc6, 0xc7, 0xc8, 0xc9,
  0xca, 0xd2, 0xd3, 0xd4, 0xd5, 0xd6, 0xd7, 0xd8, 0xd9, 0xda, 0xe1, 0xe2,
  0xe3, 0xe4, 0xe5, 0xe6, 0xe7, 0xe8, 0xe9, 0xea, 0xf1, 0xf2, 0xf3, 0xf4,
  0xf5, 0xf6, 0xf7, 0xf8, 0xf9, 0xfa]

/-- `s_dc_chroma_bits`, from the length 1 on -/
def sDcChromaBits : List Nat :=
  [0, 3, 1, 1, 1, 1, 1, 1, 1, 1, 1, 0, 0, 0, 0, 0]

/-- `s_dc_chroma_val` -/
def sDcChromaVal : List Nat := [0, 1, 2, 3, 4, 5, 6, 7, 8, 9, 10, 11]

/-- `s_ac_chroma_bits`, from the length 1 on -/
def sAcChromaBits : List Nat :=
  [0, 2, 1, 2, 4, 4, 3, 4, 7, 5, 4, 4, 0, 1, 2, 0x77]

/-- `s_ac_chroma_val`, without the zeros behind it -/
def sAcChromaVal : List Nat := [
  0x00, 0x01, 0x02, 0x03, 0x11, 0x04, 0x05, 0x21, 0x31, 0x06, 0x12, 0x41,
  0x51, 0x07, 0x61, 0x71, 0x13, 0x22, 0x32, 0x81, 0x08, 0x14, 0x42, 0x91,
  0xa1, 0xb1, 0xc1, 0x09, 0x23, 0x33, 0x52, 0xf0, 0x15, 0x62, 0x72, 0xd1,
  0x0a, 0x16, 0x24, 0x34, 0xe1, 0x25, 0xf1, 0x17, 0x18, 0x19, 0x1a, 0x26,
  0x27, 0x28, 0x29, 0x2a, 0x35, 0x36, 0x37, 0x38, 0x39, 0x3a, 0x43, 0x44,
  0x45, 0x46, 0x47, 0x48, 0x49, 0x4a, 0x53, 0x54, 0x55, 0x56, 0x57, 0x58,
  0x59, 0x5a, 0x63, 0x64, 0x65, 0x66, 0x67, 0x68, 0x69, 0x6a, 0x73, 0x74,
  0x75, 0x76, 0x77, 0x78, 0x79, 0x7a, 0x82, 0x83, 0x84, 0x85, 0x86, 0x87,
  0x88, 0x89, 0x8a, 0x92, 0x93, 0x94, 0x95, 0x96, 0x97, 0x98, 0x99, 0x9a,
  0xa2, 0xa3, 0xa4, 0xa5, 0xa6, 0xa7, 0xa8, 0xa9, 0xaa, 0xb2, 0xb3, 0xb4,
  0xb5, 0xb6, 0xb7, 0xb8, 0xb9, 0xba, 0xc2, 0xc3, 0xc4, 0xc5, 0xc6, 0xc7,
  0xc8, 0xc9, 0xca, 0xd2, 0xd3, 0xd4, 0xd5, 0xd6, 0xd7, 0xd8, 0xd9, 0xda,
  0xe2, 0xe3, 0xe4, 0xe5, 0xe6, 0xe7, 0xe8, 0xe9, 0xea, 0xf2, 0xf3, 0xf4,
  0xf5, 0xf6, 0xf7, 0xf8, 0xf9, 0xfa]

-- ===================================================== computing the codes

/-- The code sizes of the symbols in the order of the table. -/
def huffSize (bits : List Nat) : List Nat := PrefixCode.lengths bits 1

/-- The two loops that give the sizes their codes: `code` counts up while
the size at hand is `si`, and is doubled where it is not. A turn takes a
size or counts `si` up. -/
def huffCode : (turns : Nat) → List Nat → (si code : Nat) → List Nat
  | _, [], _, _ => []
  | 0, _ :: _, _, _ => []
  | n + 1, s :: sizes, si, code =>
      if s = si then code :: huffCode n sizes si (code + 1)
      else huffCode n (s :: sizes) (si + 1) (code <<< 1)

/-- `m_huff_codes` and `m_huff_code_sizes` of one table. -/
structure HuffTable where
  codes : List Nat
  codeSizes : List Nat

/-- `compute_huffman_table` -/
def computeHuffmanTable (bits val : List Nat) : HuffTable :=
  let size := huffSize bits
  let code := huffCode (size.length + 16) size (size.headD 0) 0
  (List.range size.length).foldl
    (fun t p =>
      { codes := t.codes.set (val.getD p 0) (code.getD p 0)
        codeSizes := t.codeSizes.set (val.getD p 0) (size.getD p 0) })
    ⟨List.replicate 256 0, List.replicate 256 0⟩

variable {bits val cs : List Nat} {j l w p n c si code first : Nat}

/-- Up to the next size in use the code is only doubled. -/
theorem huffCode_climb (n si code : Nat) (sizes : List Nat) (k : Nat) :
    huffCode (n + k) ((si + k) :: sizes) si code
      = huffCode n ((si + k) :: sizes) (si + k) (code * 2 ^ k) := by
  induction k generalizing si code with
  | zero => rw [Nat.pow_zero, Nat.mul_one]; rfl
  | succ k ih =>
      have hne : si + (k + 1) ≠ si := by omega
      have hsi : si + (k + 1) = si + 1 + k := by omega
      rw [← Nat.add_assoc, huffCode, if_neg hne, hsi, ih,
        Nat.shiftLeft_eq, Nat.pow_one, Nat.mul_assoc, Nat.pow_succ,
        Nat.mul_comm 2]

/-- The codes of one size are consecutive. -/
theorem huffCode_run (n si : Nat) (rest : List Nat) (c code : Nat) :
    huffCode (n + c) (List.replicate c si ++ rest) si code
      = (List.range c).map (code + ·)
        ++ huffCode n rest si (code + c) := by
  induction c generalizing code with
  | zero => rfl
  | succ c ih =>
      rw [List.replicate_succ, List.cons_append, ← Nat.add_assoc, huffCode,
        if_pos rfl, ih, List.range_succ_eq_map, List.map_cons,
        List.map_map, List.cons_append, Nat.add_zero]
      congr 2
      · apply List.map_congr_left
        intro i _
        show code + 1 + i = code + (i + 1)
        omega
      · congr 1
        omega

/-- The loops give the canonical codes. -/
theorem huffCode_eq_words (code : Nat) (hsi : si ≤ l) (k : Nat) :
    huffCode (k + ((PrefixCode.lengths cs l).length + (l + cs.length - si)))
        (PrefixCode.lengths cs l) si code
      = PrefixCode.words cs (code * 2 ^ (l - si)) := by
  induction cs generalizing l si code k with
  | nil => rw [PrefixCode.lengths, huffCode, PrefixCode.words]
  | cons c cs ih =>
      have hpow : 2 * (code * 2 ^ (l - si) + 0)
          = code * 2 ^ (l + 1 - si) := by
        rw [Nat.succ_sub hsi, Nat.pow_succ, Nat.add_zero, Nat.mul_comm 2,
          Nat.mul_assoc]
      cases c with
      | zero =>
          have := ih code (show si ≤ l + 1 by omega) k
          rw [PrefixCode.lengths, PrefixCode.words, List.replicate_zero,
            List.range_zero, List.map_nil, List.nil_append, List.nil_append,
            hpow, ← this, List.length_cons]
          congr 2
          omega
      | succ c =>
          obtain ⟨d, rfl⟩ : ∃ d, l = si + d := ⟨l - si, by omega⟩
          rw [PrefixCode.lengths, PrefixCode.words, List.length_append,
            List.length_replicate, List.length_cons]
          have hturns : k + (c + 1
              + (PrefixCode.lengths cs (si + d + 1)).length
              + (si + d + (cs.length + 1) - si))
              = k + ((PrefixCode.lengths cs (si + d + 1)).length
                + (si + d + 1 + cs.length - (si + d))) + (c + 1) + d := by
            omega
          have hrun := huffCode_run
            (k + ((PrefixCode.lengths cs (si + d + 1)).length
                + (si + d + 1 + cs.length - (si + d)))) (si + d)
            (PrefixCode.lengths cs (si + d + 1)) (c + 1) (code * 2 ^ d)
          rw [hturns, List.replicate_succ, List.cons_append,
            huffCode_climb, ← List.cons_append, ← List.replicate_succ, hrun,
            ih _ (by omega), Nat.add_sub_cancel_left, Nat.add_sub_cancel_left,
            Nat.pow_one, Nat.mul_comm 2]

/-- A table whose codes can be told apart: the codes fit into their
sizes, and every code has a symbol of its own. -/
structure WellFormed (bits val : List Nat) : Prop where
  sizes : bits.length = 16
  fits : PrefixCode.Fits bits 0 1
  total : val.length = bits.sum
  nodup : val.Nodup
  bytes : ∀ v ∈ val, v < 256

theorem headD_lengths (cs : List Nat) (l : Nat) (h : 0 < cs.sum) :
    l ≤ (PrefixCode.lengths cs l).headD 0
      ∧ (PrefixCode.lengths cs l).headD 0 ≤ l + cs.length := by
  induction cs generalizing l with
  | nil => exact absurd h (Nat.lt_irrefl _)
  | cons c cs ih =>
      cases c with
      | zero =>
          rw [List.sum_cons, Nat.zero_add] at h
          have := ih (l + 1) h
          rw [PrefixCode.lengths, List.replicate_zero, List.nil_append,
            List.length_cons]
          omega
      | succ c =>
          rw [PrefixCode.lengths, List.replicate_succ, List.cons_append,
            List.headD_cons, List.length_cons]
          omega

-- ===================================================== the finished table

/-- The first `n` symbols have their code and its size. -/
structure Filled (val code size : List Nat) (n : Nat) (t : HuffTable) :
    Prop where
  codesLength : t.codes.length = 256
  sizesLength : t.codeSizes.length = 256
  codes : ∀ p < n, t.codes.getD (val.getD p 0) 0 = code.getD p 0
  sizes : ∀ p < n, t.codeSizes.getD (val.getD p 0) 0 = size.getD p 0

theorem getD_set (xs : List Nat) (i k v : Nat) (hi : i < xs.length) :
    (xs.set i v).getD k 0 = if k = i then v else xs.getD k 0 := by
  rw [List.getD_eq_getElem?_getD, List.getD_eq_getElem?_getD,
    List.getElem?_set]
  by_cases hk : i = k
  · rw [if_pos hk, if_pos hi, if_pos hk.symm]
    rfl
  · rw [if_neg hk, if_neg (Ne.symm hk)]

theorem WellFormed.getD_lt (h : WellFormed bits val) (hp : p < val.length) :
    val.getD p 0 < 256 := by
  rw [List.getD_eq_getElem _ _ hp]
  exact h.bytes _ (List.getElem_mem hp)

theorem WellFormed.getD_inj (h : WellFormed bits val) (hp : p < val.length)
    (hn : n < val.length) (he : val.getD p 0 = val.getD n 0) : p = n := by
  rw [List.getD_eq_getElem _ _ hp, List.getD_eq_getElem _ _ hn] at he
  exact (List.Nodup.getElem_inj_iff h.nodup).mp he

/-- No symbol loses its code to a later one. -/
theorem filled_foldl (h : WellFormed bits val) (code size : List Nat)
    (n : Nat) (hn : n ≤ val.length) :
    Filled val code size n ((List.range n).foldl
      (fun t p =>
        { codes := t.codes.set (val.getD p 0) (code.getD p 0)
          codeSizes := t.codeSizes.set (val.getD p 0) (size.getD p 0) })
      ⟨List.replicate 256 0, List.replicate 256 0⟩) := by
  induction n with
  | zero =>
      exact ⟨List.length_replicate, List.length_replicate,
        fun p hp => absurd hp (Nat.not_lt_zero p),
        fun p hp => absurd hp (Nat.not_lt_zero p)⟩
  | succ n ih =>
      have ih := ih (by omega)
      have hlt := h.getD_lt (p := n) hn
      rw [List.range_succ, List.foldl_append, List.foldl_cons,
        List.foldl_nil]
      refine ⟨?_, ?_, ?_, ?_⟩
      · rw [List.length_set]
        exact ih.codesLength
      · rw [List.length_set]
        exact ih.sizesLength
      · intro p hp
        rw [getD_set _ _ _ _ (by rw [ih.codesLength]; exact hlt)]
        split
        next he => rw [h.getD_inj (by omega) hn he]
        next hne =>
          refine ih.codes p (Nat.lt_of_le_of_ne (by omega) ?_)
          rintro rfl
          exact hne rfl
      · intro p hp
        rw [getD_set _ _ _ _ (by rw [ih.sizesLength]; exact hlt)]
        split
        next he => rw [h.getD_inj (by omega) hn he]
        next hne =>
          refine ih.sizes p (Nat.lt_of_le_of_ne (by omega) ?_)
          rintro rfl
          exact hne rfl

/-- The codes of a table are the canonical ones. The loops start at the
first size in use, where nothing has been counted yet. -/
theorem huffCode_start (hb : bits.length = 16) (h : 0 < bits.sum) :
    huffCode ((huffSize bits).length + 16) (huffSize bits)
      ((huffSize bits).headD 0) 0 = PrefixCode.words bits 0 := by
  have hhead := headD_lengths bits 1 h
  have hall : huffCode ((huffSize bits).headD 0 - 1
        + ((huffSize bits).length + (1 + bits.length - 1))) (huffSize bits) 1 0
      = PrefixCode.words bits (0 * 2 ^ (1 - 1)) :=
    huffCode_eq_words 0 (Nat.le_refl 1) _
  rw [Nat.zero_mul] at hall
  rw [← hall]
  unfold huffSize at *
  cases hsizes : PrefixCode.lengths bits 1 with
  | nil =>
      have := PrefixCode.length_lengths bits 1
      rw [hsizes, List.length_nil] at this
      omega
  | cons s sizes =>
      rw [hsizes, List.headD_cons] at hhead
      obtain ⟨k, rfl⟩ : ∃ k, s = 1 + k := ⟨s - 1, by omega⟩
      have hclimb := huffCode_climb (((1 + k) :: sizes).length + 16) 1 0
        sizes k
      rw [Nat.zero_mul] at hclimb
      rw [List.headD_cons, ← hclimb]
      congr 1
      omega

/-- Every symbol of the table has the canonical code of its place. -/
theorem WellFormed.entry (h : WellFormed bits val) (hj : j ∈ val) :
    ∃ p, val[p]? = some j
      ∧ PrefixCode.entry bits 0 1 p
        = some ((computeHuffmanTable bits val).codeSizes.getD j 0,
          (computeHuffmanTable bits val).codes.getD j 0) := by
  obtain ⟨p, hp, rfl⟩ := List.getElem_of_mem hj
  have hsum : p < bits.sum := by
    rw [← h.total]
    exact hp
  obtain ⟨⟨l, w⟩, he⟩ := PrefixCode.entry_isSome hsum 0 1
  obtain ⟨hl, hw⟩ := PrefixCode.entry_getElem he
  refine ⟨p, List.getElem?_eq_getElem hp, ?_⟩
  have hlen : (huffSize bits).length = val.length := by
    rw [huffSize, PrefixCode.length_lengths, h.total]
  have hfill : Filled val (PrefixCode.words bits 0) (huffSize bits)
      val.length (computeHuffmanTable bits val) := by
    rw [computeHuffmanTable]
    simp only [huffCode_start h.sizes (show 0 < bits.sum by omega)]
    rw [hlen]
    exact filled_foldl h _ _ _ (Nat.le_refl _)
  have hc := hfill.codes p hp
  have hs := hfill.sizes p hp
  have hwords : (PrefixCode.words bits 0).getD p 0 = w := by
    rw [List.getD_eq_getElem?_getD, hw]
    rfl
  have hsizes : (huffSize bits).getD p 0 = l := by
    rw [huffSize, List.getD_eq_getElem?_getD, hl]
    rfl
  rw [List.getD_eq_getElem _ _ hp] at hc hs
  rw [he, hc, hs, hwords, hsizes]

-- =========================================== the symbols with a code

theorem wellFormed_dcLum : WellFormed sDcLumBits sDcLumVal where
  sizes := rfl
  fits := by decide
  total := rfl
  nodup := by decide
  bytes := by decide

theorem wellFormed_dcChroma : WellFormed sDcChromaBits sDcChromaVal where
  sizes := rfl
  fits := by decide
  total := rfl
  nodup := by decide
  bytes := by decide

theorem wellFormed_acLum : WellFormed sAcLumBits sAcLumVal where
  sizes := rfl
  fits := by decide
  total := by decide +kernel
  nodup := by decide +kernel
  bytes := by decide +kernel

theorem wellFormed_acChroma : WellFormed sAcChromaBits sAcChromaVal where
  sizes := rfl
  fits := by decide
  total := by decide +kernel
  nodup := by decide +kernel
  bytes := by decide +kernel

/-- Every length of a coefficient difference has a code. -/
theorem dcSymbols (n : Nat) (h : n < 12) :
    n ∈ sDcLumVal ∧ n ∈ sDcChromaVal := by
  have : sDcLumVal = List.range 12 := rfl
  have : sDcChromaVal = List.range 12 := rfl
  simp_all

/-- Of a run of at most 15 zeros and a coefficient of at most ten bits
there is a code, of the run of 16 zeros, and of the end of the block. -/
theorem acSymbols : ∀ val ∈ [sAcLumVal, sAcChromaVal],
    (∀ run < 16, ∀ n < 10, run * 16 + (n + 1) ∈ val)
      ∧ 0xF0 ∈ val ∧ 0 ∈ val := by
  decide +kernel

end SitNChow.Jpeg
