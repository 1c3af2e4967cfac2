/-
The coefficient coder of the JPEG encoder, `code_coefficients_pass_two`:
the difference of the DC coefficient to the last one, then the AC
coefficients with the zeros before each of them counted.

`Huff.blockBits` is what a block's coefficients are coded as, and
`Coded.block` that the coder puts out these bits, whatever was in the bit
buffer before.
-/
import Mathlib.Data.Int.Basic
import Mathlib.Tactic.Push
import SitNChow.Jpeg.Tables
import SitNChow.Jpeg.Writer

namespace SitNChow.Jpeg

open Kit Kit.Bits

-- ================================================== numbers of bits

/-- `while (t) { nbits++; t >>= 1; }`, for a `t` of at most as many bits
as there are turns. -/
def countBits : (turns : Nat) → Nat → Nat
  | 0, _ => 0
  | n + 1, t => if t = 0 then 0 else countBits n (t >>> 1) + 1

/-- `temp2 & ((1 << nbits) - 1)` -/
def lowBits (temp2 : Int) (nbits : Nat) : Nat :=
  (BitVec.ofInt 32 temp2).toNat &&& ((1 <<< nbits) - 1)

/-- What stands for a coefficient behind its code: a negative one is
lowered by one, so that its low bits start with a zero. -/
def lowered (v : Int) : Int := if v < 0 then v - 1 else v

variable {turns t k n : Nat} {v : Int}

/-- Zero has no bits. -/
theorem countBits_zero : countBits turns 0 = 0 := by
  cases turns with
  | zero => rfl
  | succ n => rw [countBits, if_pos rfl]

/-- Half of a number has a bit less. -/
theorem countBits_succ (h : t ≠ 0) :
    countBits (turns + 1) t = countBits turns (t / 2) + 1 := by
  rw [countBits, if_neg h]
  rfl

/-- A number fits its bits, when the loop has turns enough. -/
theorem lt_countBits (h : t < 2 ^ turns) : t < 2 ^ countBits turns t := by
  induction turns generalizing t with
  | zero => exact h
  | succ n ih =>
      by_cases h0 : t = 0
      · rw [h0]
        exact Nat.two_pow_pos _
      · have := ih (t := t / 2) (by omega)
        rw [countBits_succ h0, Nat.pow_succ]
        omega

/-- And it has no more bits than it fits. -/
theorem countBits_le (turns : Nat) (h : t < 2 ^ k) : countBits turns t ≤ k := by
  induction turns generalizing t k with
  | zero => exact Nat.zero_le _
  | succ n ih =>
      by_cases h0 : t = 0
      · rw [h0, countBits_zero]
        exact Nat.zero_le _
      · cases k with
        | zero => exact absurd (Nat.lt_one_iff.mp h) h0
        | succ k =>
            rw [countBits_succ h0]
            exact Nat.succ_le_succ (ih (by omega))

/-- A number other than zero has a bit. -/
theorem countBits_pos (turns : Nat) (h : t ≠ 0) :
    0 < countBits (turns + 1) t := by
  rw [countBits_succ h]
  exact Nat.succ_pos _

/-- The top one of its bits is set. -/
theorem countBits_lower (h : t ≠ 0) (ht : t < 2 ^ turns) :
    2 ^ (countBits turns t - 1) ≤ t := by
  induction turns generalizing t with
  | zero => exact absurd (Nat.lt_one_iff.mp ht) h
  | succ n ih =>
      rw [countBits_succ h, Nat.add_sub_cancel]
      by_cases h2 : t / 2 = 0
      · rw [h2, countBits_zero]
        exact Nat.pos_of_ne_zero h
      · have hlow := ih h2 (by omega)
        have hpos : 0 < countBits n (t / 2) := by
          cases n with
          | zero => exact absurd (show t / 2 = 0 by omega) h2
          | succ n => exact countBits_pos n h2
        have hpow : 2 ^ countBits n (t / 2)
            = 2 ^ (countBits n (t / 2) - 1) * 2 := by
          rw [← Nat.pow_succ]
          congr 1
          omega
        rw [hpow]
        omega

/-- Turns that find nothing left do not matter. -/
theorem countBits_more (h : t < 2 ^ turns) :
    countBits (turns + 1) t = countBits turns t := by
  induction turns generalizing t with
  | zero =>
      rw [Nat.lt_one_iff.mp h, countBits_zero, countBits_zero]
  | succ n ih =>
      by_cases h0 : t = 0
      · rw [h0, countBits_zero, countBits_zero]
      · rw [countBits_succ h0, ih (by omega), countBits_succ h0]

/-- The loop over the AC coefficients counts from one bit on. -/
theorem countBits_nonzero (h : t ≠ 0) (ht : t < 2 ^ 32) :
    1 + countBits 32 (t >>> 1) = countBits 32 t := by
  rw [← countBits_more ht, countBits_succ h, Nat.add_comm]
  rfl

/-- The low bits are the remainder, also of a negative number. -/
theorem lowBits_eq (temp2 : Int) (h : n ≤ 32) :
    (lowBits temp2 n : Int) = temp2 % (2 ^ n : Nat) := by
  have hdvd : ((2 ^ n : Nat) : Int) ∣ ((2 ^ 32 : Nat) : Int) :=
    Int.natCast_dvd_natCast.mpr (Nat.pow_dvd_pow 2 h)
  have hne : ((2 ^ 32 : Nat) : Int) ≠ 0 :=
    Int.natCast_ne_zero.mpr (Nat.ne_of_gt (Nat.two_pow_pos 32))
  rw [lowBits, Nat.shiftLeft_eq, Nat.one_mul, Nat.and_two_pow_sub_one_eq_mod,
    BitVec.toNat_ofInt, Int.natCast_emod,
    Int.toNat_of_nonneg (Int.emod_nonneg _ hne), Int.emod_emod_of_dvd _ hdvd]

/-- The low `n` bits spell a number below `2 ^ n`. -/
theorem lowBits_lt (temp2 : Int) : lowBits temp2 n < 2 ^ n := by
  rw [lowBits, Nat.shiftLeft_eq, Nat.one_mul, Nat.and_two_pow_sub_one_eq_mod]
  exact Nat.mod_lt _ (Nat.two_pow_pos n)

-- ===================================================== the Huffman codes

/-- A row of `m_huff_bits` and of `m_huff_val`. -/
structure Huff where
  bits : List Nat
  val : List Nat

/-- The table that is computed from it. -/
def Huff.table (h : Huff) : HuffTable := computeHuffmanTable h.bits h.val

/-- `put_bits(codes[j], code_sizes[j])` -/
def HuffTable.put (t : HuffTable) (j : Nat) (w : Writer) : Writer :=
  putBits (t.codes.getD j 0) (t.codeSizes.getD j 0) w

/-- The bits of a symbol's code. -/
def Huff.word (h : Huff) (j : Nat) : List Bool :=
  bitsOf (h.table.codes.getD j 0) (h.table.codeSizes.getD j 0)

/-- The rows of the standard tables. -/
def dcLum : Huff := ⟨sDcLumBits, sDcLumVal⟩
def acLum : Huff := ⟨sAcLumBits, sAcLumVal⟩
def dcChroma : Huff := ⟨sDcChromaBits, sDcChromaVal⟩
def acChroma : Huff := ⟨sAcChromaBits, sAcChromaVal⟩

variable {room : Nat} {hd : List UInt8} {bits : List Bool} {w : Writer}
  {h : Huff} {j run : Nat}

/-- A symbol of the table is written as its code word. -/
theorem Coded.put (hw : Coded room hd bits w)
    (wf : WellFormed h.bits h.val) (hj : j ∈ h.val) :
    Coded room hd (bits ++ h.word j) (h.table.put j w) := by
  obtain ⟨p, -, he⟩ := wf.entry hj
  have hlen := (PrefixCode.entry_len he).2
  rw [wf.sizes] at hlen
  exact hw.putBits (PrefixCode.entry_lt wf.fits he) (by
    rw [Huff.table]
    omega)

/-- A symbol is found again from the bits of its code. -/
theorem Huff.decode_word (wf : WellFormed h.bits h.val) (hj : j ∈ h.val) :
    ∃ p, h.val[p]? = some j ∧ ∀ rest,
      PrefixCode.decode h.bits 0 0 0 (h.word j ++ rest) = some (p, rest) := by
  obtain ⟨p, hp, he⟩ := wf.entry hj
  exact ⟨p, hp, fun rest => PrefixCode.decode_word wf.fits he rest⟩

-- ==================================================== a block's coefficients

/-- The DC part: the number of bits of the difference, and the
difference. -/
def codeDc (dc : HuffTable) (diff : Int) (w : Writer) : Writer :=
  let nbits := countBits 32 diff.natAbs
  let w := dc.put nbits w
  if nbits ≠ 0 then putBits (lowBits (lowered diff) nbits) nbits w else w

/-- `while (run_len >= 16)`: a code for every 16 zeros. Returns what is
left of the run. -/
def putRuns (ac : HuffTable) : (turns : Nat) → Nat → Writer → Nat × Writer
  | 0, runLen, w => (runLen, w)
  | n + 1, runLen, w =>
      if 16 ≤ runLen then putRuns ac n (runLen - 16) (ac.put 0xF0 w)
      else (runLen, w)

/-- The AC part: a code for the zeros before a coefficient and the
number of its bits, then the coefficient; an end code when zeros are
left over. -/
def codeAc (ac : HuffTable) : List Int → (runLen : Nat) → Writer → Writer
  | [], runLen, w => if runLen ≠ 0 then ac.put 0 w else w
  | c :: cs, runLen, w =>
      if c = 0 then codeAc ac cs (runLen + 1) w
      else
        let r := putRuns ac runLen runLen w
        let nbits := 1 + countBits 32 (c.natAbs >>> 1)
        let w := ac.put ((r.1 <<< 4) + nbits) r.2
        codeAc ac cs 0 (putBits (lowBits (lowered c) nbits) nbits w)

/-- `code_coefficients_pass_two`, with the tables of the component.
Returns the new `m_last_dc_val` of the component. -/
def codeCoefficientsPassTwo (dc ac : HuffTable) (lastDcVal : Int)
    (coefficients : List Int) (w : Writer) : Int × Writer :=
  let c0 := coefficients.headD 0
  (c0, codeAc ac coefficients.tail 0 (codeDc dc (c0 - lastDcVal) w))

-- ============================================== what a block is coded as

/-- The bits of a value behind its code. -/
def valueBits (v : Int) : List Bool :=
  bitsOf (lowBits (lowered v) (countBits 32 v.natAbs)) (countBits 32 v.natAbs)

/-- The bits of the AC part. -/
def Huff.acBits (h : Huff) : List Int → (runLen : Nat) → List Bool
  | [], runLen => if runLen ≠ 0 then h.word 0 else []
  | c :: cs, runLen =>
      if c = 0 then h.acBits cs (runLen + 1)
      else
        (List.replicate (runLen / 16) (h.word 0xF0)).flatten
          ++ h.word (runLen % 16 * 16 + countBits 32 c.natAbs)
          ++ valueBits c ++ h.acBits cs 0

/-- The bits of the DC part. -/
def Huff.dcBits (h : Huff) (diff : Int) : List Bool :=
  h.word (countBits 32 diff.natAbs) ++ valueBits diff

/-- Every number of bits a DC difference can have, has a code. -/
structure Huff.CodesDc (h : Huff) : Prop where
  wellFormed : WellFormed h.bits h.val
  symbol : ∀ n < 12, n ∈ h.val

/-- Every run and every number of bits an AC coefficient can have, has
a code. -/
structure Huff.CodesAc (h : Huff) : Prop where
  wellFormed : WellFormed h.bits h.val
  symbol : ∀ run < 16, ∀ n < 10, run * 16 + (n + 1) ∈ h.val
  zeros : 0xF0 ∈ h.val
  eob : 0 ∈ h.val

/-- The DC table of the luminance has every code it may need. -/
theorem codesDc_dcLum : dcLum.CodesDc where
  wellFormed := wellFormed_dcLum
  symbol n hn := (dcSymbols n hn).1

/-- And so has that of the chrominance. -/
theorem codesDc_dcChroma : dcChroma.CodesDc where
  wellFormed := wellFormed_dcChroma
  symbol n hn := (dcSymbols n hn).2

/-- The AC table of the luminance has every code it may need. -/
theorem codesAc_acLum : acLum.CodesAc where
  wellFormed := wellFormed_acLum
  symbol := (acSymbols sAcLumVal (List.mem_cons_self)).1
  zeros := (acSymbols sAcLumVal (List.mem_cons_self)).2.1
  eob := (acSymbols sAcLumVal (List.mem_cons_self)).2.2

/-- And so has that of the chrominance. -/
theorem codesAc_acChroma : acChroma.CodesAc where
  wellFormed := wellFormed_acChroma
  symbol := (acSymbols sAcChromaVal (by simp)).1
  zeros := (acSymbols sAcChromaVal (by simp)).2.1
  eob := (acSymbols sAcChromaVal (by simp)).2.2

/-- A coefficient that the coder has a code for: at most ten bits. -/
def InRange (c : Int) : Prop := c.natAbs < 2 ^ 10

/-- A DC difference of at most eleven bits is written as its size and its low
bits. -/
theorem Coded.dc (hw : Coded room hd bits w) (hc : h.CodesDc)
    {diff : Int} (hd11 : diff.natAbs < 2 ^ 11) :
    Coded room hd (bits ++ h.dcBits diff) (codeDc h.table diff w) := by
  have hle := countBits_le 32 hd11
  have hput := hw.put hc.wellFormed (hc.symbol _ (Nat.lt_succ_of_le hle))
  rw [codeDc, Huff.dcBits, ← List.append_assoc]
  split
  next => exact hput.putBits (lowBits_lt _) (by omega)
  next h0 =>
    have h0 : countBits 32 diff.natAbs = 0 := by omega
    rw [valueBits, h0, bitsOf, List.append_nil]
    rwa [h0] at hput

/-- Sixteen zeros at a time are written as their own symbol; fewer are left.
-/
theorem Coded.runs (hw : Coded room hd bits w) (hc : h.CodesAc)
    (hrun : run ≤ turns) :
    (putRuns h.table turns run w).1 = run % 16
      ∧ Coded room hd
        (bits ++ (List.replicate (run / 16) (h.word 0xF0)).flatten)
        (putRuns h.table turns run w).2 := by
  induction turns generalizing run bits w with
  | zero =>
      obtain rfl : run = 0 := by omega
      refine ⟨rfl, ?_⟩
      rw [Nat.zero_div, List.replicate_zero, List.flatten_nil,
        List.append_nil]
      exact hw
  | succ n ih =>
      rw [putRuns]
      split
      next h16 =>
        have hput := hw.put hc.wellFormed hc.zeros
        obtain ⟨hleft, hcoded⟩ := ih hput (show run - 16 ≤ n by omega)
        have hdiv : run / 16 = (run - 16) / 16 + 1 := by omega
        refine ⟨by rw [hleft]; omega, ?_⟩
        rw [hdiv, List.replicate_succ, List.flatten_cons,
          ← List.append_assoc]
        exact hcoded
      next h16 =>
        refine ⟨(Nat.mod_eq_of_lt (by omega)).symm, ?_⟩
        rw [Nat.div_eq_of_lt (by omega), List.replicate_zero,
          List.flatten_nil, List.append_nil]
        exact hw

/-- The coefficients behind a run of zeros are written, those in range. -/
theorem Coded.ac (hw : Coded room hd bits w) (hc : h.CodesAc)
    {cs : List Int} (hcs : ∀ c ∈ cs, InRange c) (run : Nat) :
    Coded room hd (bits ++ h.acBits cs run) (codeAc h.table cs run w) := by
  induction cs generalizing run bits w with
  | nil =>
      rw [codeAc, Huff.acBits]
      split
      next => exact hw.put hc.wellFormed hc.eob
      next =>
        rw [List.append_nil]
        exact hw
  | cons c cs ih =>
      have hrest : ∀ c ∈ cs, InRange c :=
        fun x hx => hcs x (List.mem_cons_of_mem c hx)
      rw [codeAc, Huff.acBits]
      split
      next => exact ih hw hrest (run + 1)
      next h0 =>
        have hc10 : c.natAbs < 2 ^ 10 := hcs c List.mem_cons_self
        have hne : c.natAbs ≠ 0 := Int.natAbs_ne_zero.mpr h0
        have hnbits : 1 + countBits 32 (c.natAbs >>> 1)
            = countBits 32 c.natAbs := countBits_nonzero hne (by omega)
        have hle := countBits_le 32 hc10
        have hpos := countBits_pos 31 hne
        obtain ⟨hleft, hcoded⟩ := hw.runs hc (Nat.le_refl run)
        have hsym : run % 16 * 16 + countBits 32 c.natAbs ∈ h.val := by
          have := hc.symbol (run % 16) (Nat.mod_lt _ (by omega))
            (countBits 32 c.natAbs - 1) (by omega)
          rwa [Nat.sub_add_cancel hpos] at this
        have hput := hcoded.put hc.wellFormed hsym
        have hval := hput.putBits (lowBits_lt (n := countBits 32 c.natAbs)
          (lowered c)) (by omega)
        have := ih hval hrest 0
        dsimp only
        rw [hleft, hnbits, Nat.shiftLeft_eq]
        simp only [List.append_assoc] at this ⊢
        exact this

/-- What a block's coefficients are coded as. -/
def Huff.blockBits (dc ac : Huff) (lastDcVal : Int) (coefficients : List Int) :
    List Bool :=
  dc.dcBits (coefficients.headD 0 - lastDcVal)
    ++ ac.acBits coefficients.tail 0

/-- A block is written as the bits that `blockBits` says: its DC difference,
then its AC coefficients. -/
theorem Coded.block (hw : Coded room hd bits w) {dc ac : Huff}
    (hdc : dc.CodesDc) (hac : ac.CodesAc) {lastDcVal : Int} {cs : List Int}
    (hdiff : (cs.headD 0 - lastDcVal).natAbs < 2 ^ 11)
    (hcs : ∀ c ∈ cs.tail, InRange c) :
    Coded room hd (bits ++ Huff.blockBits dc ac lastDcVal cs)
      (codeCoefficientsPassTwo dc.table ac.table lastDcVal cs w).2 := by
  rw [codeCoefficientsPassTwo, Huff.blockBits, ← List.append_assoc]
  exact (hw.dc hdc hdiff).ac hac hcs 0

end SitNChow.Jpeg
