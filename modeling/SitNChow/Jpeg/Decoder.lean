/-
The entropy decoder of the JPEG decoder, `mcu_load`, and that it undoes
the coefficient coder: from the bits a block was coded as it restores the
block's coefficients, multiplied by the quantizers (`loadBlock_spec`). The
products are made in 32 bits, so they have to fit there (`FitProducts`).
-/
import SitNChow.Jpeg.Coder
import SitNChow.Jpeg.Reader

namespace SitNChow.Jpeg

open Kit Kit.Bits

/-- `Zig`, the order in which the coefficients are coded; the encoder's
`s_zag` is the same table. -/
def zig : List Nat := [
  0, 1, 8, 16, 9, 2, 3, 10, 17, 24, 32, 25, 18, 11, 4, 5,
  12, 19, 26, 33, 40, 48, 41, 34, 27, 20, 13, 6, 7, 14, 21, 28,
  35, 42, 49, 56, 57, 50, 43, 36, 29, 22, 15, 23, 30, 37, 44, 51,
  58, 59, 52, 45, 38, 31, 39, 46, 53, 60, 61, 54, 47, 55, 62, 63]

/-- The fields of `JDEC` that the entropy decoder works with; the
stream's fields are in `input`. Tables that are not loaded are null
pointers. -/
structure Jdec (ι : Type) where
  input : ι
  huff : (id cls : Nat) → Option HuffTbl
  qttbl : Nat → Option (List Int)
  qtid : Nat → Nat
  dcv : Nat → Int
  msx : Nat
  msy : Nat
  ncomp : Nat
  nrst : Nat
  width : Nat
  height : Nat

/-- What `mcu_load` has of a block when its coefficients are loaded: the
coefficients in `tmp`, and how far the AC elements reached. -/
structure Block where
  tmp : List Int
  z : Nat
  deriving DecidableEq

/-- `if (!(d & bc)) d -= (bc << 1) - 1`, for `bc = 1 << (nbit - 1)` -/
def extend (d nbit : Nat) : Int :=
  if d &&& (1 <<< (nbit - 1)) = 0 then d - (((1 <<< (nbit - 1)) <<< 1) - 1)
  else d

/-- `(int16_t)d` -/
def toInt16 (d : Int) : Int := (BitVec.ofInt 16 d).toInt

/-- `d * dqf[i] >> 8`, whose product is an `int32_t` -/
def dequantize (d dqf : Int) : Int :=
  (BitVec.ofInt 32 (d * dqf)).toInt >>> (8 : Nat)

section Decoder

variable {ι : Type} (R : Reader ι)

/-- The loop over the AC elements. Every turn moves `z` on. -/
def loadAc (t : HuffTbl) (dqf : List Int) :
    (turns z : Nat) → List Int → ι → Except JResult (Nat × List Int × ι)
  | 0, z, tmp, s => .ok (z, tmp, s)
  | n + 1, z, tmp, s => do
      let (bc, s) ← R.huffext t s
      if bc = 0 then return (z, tmp, s)
      let z := z + (bc >>> 4)
      if 64 ≤ z then throw .fmt1
      let nbit := bc &&& 0x0F
      let (tmp, s) ← if nbit ≠ 0 then do
          let (d, s) ← R.bitext nbit s
          let i := zig.getD z 0
          pure (tmp.set i (dequantize (extend d nbit) (dqf.getD i 0)), s)
        else pure (tmp, s)
      if z + 1 < 64 then loadAc t dqf n (z + 1) tmp s
      else return (z + 1, tmp, s)

/-- The loading of one block of component `cmp`. -/
def loadBlock (cmp : Nat) (jd : Jdec ι) : Except JResult (Block × Jdec ι) := do
  let id := if cmp ≠ 0 then 1 else 0
  let none : HuffTbl := ⟨[], [], []⟩
  let (bc, s) ← R.huffext ((jd.huff id 0).getD none) jd.input
  let (d, dcv, s) ← if bc ≠ 0 then do
      let (e, s) ← R.bitext bc s
      let d := jd.dcv cmp + extend e bc
      pure (d, (fun i => if i = cmp then toInt16 d else jd.dcv i), s)
    else pure (jd.dcv cmp, jd.dcv, s)
  let dqf := (jd.qttbl (jd.qtid cmp)).getD []
  let tmp := dequantize d (dqf.getD 0 0) :: List.replicate 63 0
  let (z, tmp, s) ← loadAc R ((jd.huff id 1).getD none) dqf 63 1 tmp s
  return (⟨tmp, z⟩, { jd with input := s, dcv := dcv })

/-- `mcu_load`, over the components of the MCU's blocks: the Y blocks
and one block of each of Cb and Cr. In a monochrome image the latter are
not there. The inverse transform of the loaded blocks is left out. -/
def loadBlocks : List Nat → Jdec ι →
    Except JResult (List (Option Block) × Jdec ι)
  | [], jd => .ok ([], jd)
  | cmp :: cmps, jd => do
      let (b, jd) ← if cmp ≠ 0 ∧ jd.ncomp ≠ 3 then pure (none, jd) else do
          let (b, jd) ← loadBlock R cmp jd
          pure (some b, jd)
      let (bs, jd) ← loadBlocks cmps jd
      return (b :: bs, jd)

/-- The components of an MCU's blocks. -/
def mcuComponents (nby : Nat) : List Nat :=
  (List.range (nby + 2)).map fun blk => if blk < nby then 0 else blk - nby + 1

/-- `mcu_load` -/
def mcuLoad (jd : Jdec ι) : Except JResult (List (Option Block) × Jdec ι) :=
  loadBlocks R (mcuComponents (jd.msx * jd.msy)) jd

/-- Where the MCUs of the image are, row by row. -/
def mcuPlaces (width height mx my : Nat) : List (Nat × Nat) :=
  (List.range ((height + my - 1) / my)).flatMap fun y =>
    (List.range ((width + mx - 1) / mx)).map fun x => (x * mx, y * my)

/-- The loop of `jd_decomp` over the MCUs; `rst` counts them within a
restart interval, `rsc` the intervals. The output of an MCU is left
out. -/
def decompLoop : List (Nat × Nat) → (rst rsc : Nat) → Jdec ι →
    Except JResult (List (List (Option Block)) × Jdec ι)
  | [], _, _, jd => .ok ([], jd)
  | _ :: places, rst, rsc, jd => do
      let (jd, rst, rsc) ← if jd.nrst ≠ 0 then
          if rst = jd.nrst then do
            let s ← R.restart rsc jd.input
            pure ({ jd with input := s, dcv := fun _ => 0 }, 1, rsc + 1)
          else pure (jd, rst + 1, rsc)
        else pure (jd, rst, rsc)
      let (m, jd) ← mcuLoad R jd
      let (ms, jd) ← decompLoop places rst rsc jd
      return (m :: ms, jd)

/-- `jd_decomp`, without scaling -/
def jdDecomp (jd : Jdec ι) :
    Except JResult (List (List (Option Block)) × Jdec ι) :=
  decompLoop R (mcuPlaces jd.width jd.height (jd.msx * 8) (jd.msy * 8)) 0 0
    { jd with dcv := fun _ => 0 }

end Decoder

-- ==================================================== values and codes

variable {v : Int} {n d : Nat}

/-- A mask of one bit tests that bit. -/
theorem and_one_shiftLeft (d n : Nat) :
    (d &&& (1 <<< n) = 0) ↔ d.testBit n = false := by
  rw [Nat.shiftLeft_eq, Nat.one_mul, Nat.and_two_pow]
  cases d.testBit n with
  | false => simp
  | true =>
      have := Nat.two_pow_pos n
      simp

/-- The value behind a code is restored from its bits. -/
theorem extend_lowBits (h0 : v ≠ 0) (h : v.natAbs < 2 ^ 32) :
    extend (lowBits (lowered v) (countBits 32 v.natAbs))
      (countBits 32 v.natAbs) = v := by
  have hne : v.natAbs ≠ 0 := Int.natAbs_ne_zero.mpr h0
  have hlow := countBits_lower hne h
  have hup := lt_countBits h
  have hpos : 0 < countBits 32 v.natAbs := countBits_pos 31 hne
  have hle := countBits_le 32 h
  generalize countBits 32 v.natAbs = n at *
  obtain ⟨m, rfl⟩ : ∃ m, n = m + 1 := ⟨n - 1, by omega⟩
  rw [Nat.add_sub_cancel] at hlow
  have hpow : 2 ^ (m + 1) = 2 * 2 ^ m := by
    rw [Nat.pow_succ, Nat.mul_comm]
  have hbits := lowBits_eq (lowered v) hle
  rw [extend, Nat.add_sub_cancel]
  have hshift : (1 <<< m) <<< 1 = 2 * 2 ^ m := by
    rw [Nat.shiftLeft_eq, Nat.shiftLeft_eq, Nat.one_mul, Nat.mul_comm]
  have htest : ∀ d < 2 * 2 ^ m, (d &&& (1 <<< m) = 0) ↔ d < 2 ^ m := by
    intro d hd
    rw [and_one_shiftLeft]
    constructor
    · intro hf
      by_contra hge
      have hone : d / 2 ^ m = 1 := by
        rw [Nat.div_eq_iff (Nat.two_pow_pos m)]
        omega
      have := Nat.toNat_testBit d m
      rw [hone, hf] at this
      cases this
    · intro hlt
      exact Nat.testBit_lt_two_pow hlt
  have hbound := lowBits_lt (lowered v) (n := m + 1)
  rw [hpow] at hbits hbound hup
  simp only [htest _ hbound, hshift]
  unfold lowered at *
  generalize hx : lowBits _ (m + 1) = x at *
  by_cases hneg : v < 0
  · rw [if_pos hneg] at hbits
    have : (x : Int) = v - 1 + (2 * 2 ^ m : Nat) := by
      rw [hbits, ← Int.add_emod_right, Int.emod_eq_of_lt (by omega) (by omega)]
    rw [if_pos (by omega)]
    omega
  · rw [if_neg hneg] at hbits
    have : (x : Int) = v := by
      rw [hbits, Int.emod_eq_of_lt (by omega) (by omega)]
    rw [if_neg (by omega)]
    exact this

/-- A value other than zero has between one and 16 bits. -/
theorem valueBits_pos (h0 : v ≠ 0) (h : v.natAbs < 2 ^ 16) :
    0 < countBits 32 v.natAbs ∧ countBits 32 v.natAbs ≤ 16 :=
  ⟨countBits_pos 31 (Int.natAbs_ne_zero.mpr h0), countBits_le 32 h⟩

-- ======================================================= dequantization

/-- The zigzag order has no place twice. -/
theorem zig_idxOf : ∀ n < 64, zig.idxOf (zig.getD n 0) = n := by decide

/-- It has every place. -/
theorem zig_getD : ∀ i < 64, zig.getD (zig.idxOf i) 0 = i := by decide

/-- It has no others. -/
theorem zig_lt : ∀ n < 64, zig.getD n 0 < 64 := by decide

/-- The first `n` coefficients, each multiplied by its quantizer and put
in its place. -/
def dequantized (dqf cs : List Int) (n : Nat) : List Int :=
  (List.range 64).map fun i =>
    if zig.idxOf i < n
    then (cs.getD (zig.idxOf i) 0 * dqf.getD i 0) >>> (8 : Nat)
    else 0

/-- The products of the coefficients and their quantizers fit 32 bits. -/
def FitProducts (dqf cs : List Int) : Prop :=
  ∀ n < 64, (cs.getD n 0 * dqf.getD (zig.getD n 0) 0).natAbs < 2 ^ 31

variable {dqf cs acs : List Int}

/-- Such a product is not cut off. -/
theorem dequantize_eq {d q : Int} (h : (d * q).natAbs < 2 ^ 31) :
    dequantize d q = (d * q) >>> (8 : Nat) := by
  rw [dequantize, BitVec.toInt_ofInt_eq_self (by omega) (by omega) (by omega)]

/-- Zero descaled is zero. -/
theorem zero_shiftRight (n : Nat) : (0 : Int) >>> n = 0 := by
  rw [Int.shiftRight_eq_div_pow]
  exact Int.zero_ediv _

/-- A coefficient that is zero needs no step. -/
theorem dequantized_zero (h : cs.getD n 0 = 0) :
    dequantized dqf cs (n + 1) = dequantized dqf cs n := by
  apply List.map_congr_left
  intro i _
  by_cases hi : zig.idxOf i = n
  · rw [if_pos (by omega), if_neg (by omega), hi, h, Int.zero_mul,
      zero_shiftRight]
  · by_cases hlt : zig.idxOf i < n
    · rw [if_pos (by omega), if_pos hlt]
    · rw [if_neg (by omega), if_neg hlt]

/-- Coefficients that are zero need not be restored. -/
theorem dequantized_zeros (dqf : List Int) (k : Nat)
    (h : ∀ i, n ≤ i → i < n + k → cs.getD i 0 = 0) :
    dequantized dqf cs (n + k) = dequantized dqf cs n := by
  induction k with
  | zero => rfl
  | succ k ih =>
      rw [← Nat.add_assoc, dequantized_zero (h (n + k) (by omega) (by omega)),
        ih fun i hi hik => h i hi (by omega)]

/-- The step for the next coefficient. -/
theorem dequantized_set (dqf cs : List Int) (hn : n < 64) :
    (dequantized dqf cs n).set (zig.getD n 0)
        ((cs.getD n 0 * dqf.getD (zig.getD n 0) 0) >>> (8 : Nat))
      = dequantized dqf cs (n + 1) := by
  apply List.ext_getElem
  · simp [dequantized]
  · intro i h1 h2
    have hi : i < 64 := by simpa [dequantized] using h2
    rw [List.getElem_set]
    simp only [dequantized, List.getElem_map, List.getElem_range]
    by_cases he : zig.getD n 0 = i
    · have hidx : zig.idxOf i = n := by rw [← he, zig_idxOf n hn]
      rw [if_pos he, if_pos (by omega), hidx, he]
    · have hidx : zig.idxOf i ≠ n := by
        intro h
        exact he (by rw [← h, zig_getD i hi])
      rw [if_neg he]
      by_cases hlt : zig.idxOf i < n
      · rw [if_pos hlt, if_pos (by omega)]
      · rw [if_neg hlt, if_neg (by omega)]

/-- Only the DC element is loaded. -/
theorem dequantized_one (d : Int) (h : cs.getD 0 0 = d) :
    (d * dqf.getD 0 0) >>> (8 : Nat) :: List.replicate 63 0
      = dequantized dqf cs 1 := by
  have h0 : dequantized dqf cs 0 = List.replicate 64 0 := by
    unfold dequantized
    apply List.ext_getElem <;> simp
  rw [← dequantized_set dqf cs (by omega), h0, h]
  rfl

-- ================================================== loading a block

/-- The decoder's table of a Huffman table of the file. -/
def Huff.tbl (h : Huff) : HuffTbl :=
  ⟨h.bits, PrefixCode.words h.bits 0, h.val⟩

section Load

variable {ι : Type} {R : Reader ι} {H : ι → List Bool → Prop} {s : ι}
  {h dc ac : Huff} {rest : List Bool} {j run z turns : Nat}

/-- A symbol is read from the bits of its code. -/
theorem Reader.Reads.word (hR : R.Reads H) (wf : WellFormed h.bits h.val)
    (hj : j ∈ h.val) (hs : H s (h.word j ++ rest)) :
    ∃ s', R.huffext h.tbl s = .ok (j, s') ∧ H s' rest := by
  obtain ⟨p, hp, hdec⟩ := h.decode_word wf hj
  exact hR.huff ⟨wf.sizes, rfl⟩ hs (hdec rest) hp

/-- A value is read from its bits. -/
theorem Reader.Reads.value (hR : R.Reads H) (h0 : v ≠ 0)
    (hv : v.natAbs < 2 ^ 16) (hs : H s (valueBits v ++ rest)) :
    ∃ x s', R.bitext (countBits 32 v.natAbs) s = .ok (x, s')
      ∧ extend x (countBits 32 v.natAbs) = v ∧ H s' rest := by
  obtain ⟨hpos, hle⟩ := valueBits_pos h0 hv
  obtain ⟨s', hs', h'⟩ := hR.bits hpos hle (lowBits_lt (lowered v)) hs
  exact ⟨_, s', hs', extend_lowBits h0 (by omega), h'⟩

/-- A run and a size are read back from their symbol. -/
theorem runSymbol (run : Nat) (hn : n < 16) :
    (run * 16 + n) >>> 4 = run ∧ (run * 16 + n) &&& 0x0F = n := by
  constructor
  · rw [Nat.shiftRight_eq_div_pow]
    omega
  · have := Nat.and_two_pow_sub_one_eq_mod (run * 16 + n) 4
    have h15 : 2 ^ 4 - 1 = 15 := rfl
    rw [h15] at this
    rw [this]
    omega

/-- A code for 16 zeros moves `z` on by 16. -/
theorem loadAc_zeros (hR : R.Reads H) (hc : ac.CodesAc)
    (dqf tmp : List Int) (turns k : Nat) (hz : z + 16 * k < 64)
    (hs : H s ((List.replicate k (ac.word 0xF0)).flatten ++ rest)) :
    ∃ s', loadAc R ac.tbl dqf (turns + k) z tmp s
        = loadAc R ac.tbl dqf turns (z + 16 * k) tmp s' ∧ H s' rest := by
  induction k generalizing z s with
  | zero =>
      rw [List.replicate_zero, List.flatten_nil, List.nil_append] at hs
      exact ⟨s, rfl, hs⟩
  | succ k ih =>
      rw [List.replicate_succ, List.flatten_cons, List.append_assoc] at hs
      obtain ⟨s₁, hs₁, h₁⟩ := hR.word hc.wellFormed hc.zeros hs
      obtain ⟨s₂, hs₂, h₂⟩ := ih (z := z + 16) (by omega) h₁
      refine ⟨s₂, ?_, h₂⟩
      have hz' : z + 16 * (k + 1) = z + 16 + 16 * k := by omega
      rw [hz', ← hs₂, ← Nat.add_assoc, loadAc, hs₁]
      simp only [bind, Except.bind]
      have hhi : (0xF0 : Nat) >>> 4 = 15 := rfl
      have hlo : (0xF0 : Nat) &&& 0x0F = 0 := rfl
      rw [if_neg (by decide), hhi, hlo, if_neg (by omega)]
      show (if z + 15 + 1 < 64 then loadAc R ac.tbl dqf (turns + k)
        (z + 15 + 1) tmp s₁ else _) = _
      rw [if_pos (by omega)]

/-- A coefficient that is not zero is restored together with the `run` of
zeros before it. -/
theorem loadAc_coefficient {c : Int} (hR : R.Reads H) (hc : ac.CodesAc)
    (hfit : FitProducts dqf cs) (m : Nat) (hc10 : InRange c) (h0 : c ≠ 0)
    (hget : cs.getD (z + run) 0 = c)
    (hzeros : ∀ i, z ≤ i → i < z + run → cs.getD i 0 = 0)
    (hlt : z + run < 64)
    (hs : H s ((List.replicate (run / 16) (ac.word 0xF0)).flatten
      ++ (ac.word (run % 16 * 16 + countBits 32 c.natAbs)
        ++ (valueBits c ++ rest)))) :
    ∃ s', loadAc R ac.tbl dqf (m + 1 + run / 16) z (dequantized dqf cs z) s
        = (if z + run + 1 < 64 then
            loadAc R ac.tbl dqf m (z + run + 1)
              (dequantized dqf cs (z + run + 1)) s'
          else .ok (z + run + 1, dequantized dqf cs (z + run + 1), s'))
      ∧ H s' rest := by
  have hc10 : c.natAbs < 2 ^ 10 := hc10
  have hpos : 0 < countBits 32 c.natAbs :=
    countBits_pos 31 (Int.natAbs_ne_zero.mpr h0)
  have hle10 := countBits_le 32 hc10
  -- the codes for 16 zeros, the code for the rest of them, and the value
  obtain ⟨s₁, hs₁, h₁⟩ := loadAc_zeros (z := z)
    hR hc dqf (dequantized dqf cs z) (m + 1) (run / 16) (by omega) hs
  have hmod : run % 16 < 16 := Nat.mod_lt _ (by omega)
  have hsym : run % 16 * 16 + countBits 32 c.natAbs ∈ ac.val := by
    have := hc.symbol (run % 16) hmod (countBits 32 c.natAbs - 1)
      (by omega)
    rwa [Nat.sub_add_cancel hpos] at this
  obtain ⟨s₂, hs₂, h₂⟩ := hR.word hc.wellFormed hsym h₁
  obtain ⟨x, s₃, hs₃, hx, h₃⟩ := hR.value h0 (by omega) h₂
  obtain ⟨hhi, hlo⟩ := runSymbol (run % 16)
    (show countBits 32 c.natAbs < 16 by omega)
  have hplace : z + 16 * (run / 16) + run % 16 = z + run := by omega
  have hset := dequantized_set dqf cs hlt
  have hfits := hfit (z + run) hlt
  rw [hget] at hfits
  rw [dequantized_zeros dqf run hzeros, hget, ← dequantize_eq hfits] at hset
  refine ⟨s₃, ?_, h₃⟩
  rw [hs₁, loadAc, hs₂]
  simp only [bind, Except.bind]
  rw [if_neg (by omega), hhi, hlo, hplace, if_neg (by omega)]
  rw [if_pos (by omega), hs₃]
  simp only [hx, hset]
  rfl

/-- What the loop restores: the coefficients from `z` on, of which the
first `run` are zeros that the coder has counted already. -/
theorem loadAc_spec (hR : R.Reads H) (hc : ac.CodesAc)
    (hfit : FitProducts dqf cs) (turns z run : Nat)
    (hacs : ∀ c ∈ acs, InRange c) (hdrop : cs.drop (z + run) = acs)
    (hzeros : ∀ i, z ≤ i → i < z + run → cs.getD i 0 = 0)
    (hlen : z + run + acs.length = 64) (hz : z < 64)
    (hturns : 64 ≤ turns + z)
    (hs : H s (ac.acBits acs run ++ rest)) :
    ∃ z' s', loadAc R ac.tbl dqf turns z (dequantized dqf cs z) s
        = .ok (z', dequantized dqf cs 64, s')
      ∧ H s' rest ∧ z ≤ z' ∧ (z' = z ↔ ∀ c ∈ acs, c = 0) := by
  induction acs generalizing z run turns s with
  | nil =>
      -- zeros are left over: the end code
      rw [Huff.acBits, if_pos (by rw [List.length_nil] at hlen; omega)] at hs
      obtain ⟨s₁, hs₁, h₁⟩ := hR.word hc.wellFormed hc.eob hs
      obtain ⟨m, rfl⟩ : ∃ m, turns = m + 1 := ⟨turns - 1, by omega⟩
      refine ⟨z, s₁, ?_, h₁, Nat.le_refl z,
        ⟨fun _ c hc => (by cases hc), fun _ => rfl⟩⟩
      have hall := dequantized_zeros dqf run hzeros
      rw [List.length_nil, Nat.add_zero] at hlen
      rw [loadAc, hs₁, ← hall, hlen]
      rfl
  | cons c acs ih =>
      have hget : cs.getD (z + run) 0 = c := by
        rw [List.getD_eq_getElem?_getD, ← Nat.add_zero (z + run),
          ← List.getElem?_drop, hdrop]
        rfl
      have hnext : cs.drop (z + run + 1) = acs := by
        rw [← List.drop_drop, hdrop]
        rfl
      rw [List.length_cons] at hlen
      rw [Huff.acBits] at hs
      by_cases h0 : c = 0
      · rw [if_pos h0] at hs
        obtain ⟨z', s', hload, h', hle, hiff⟩ := ih turns z (run + 1)
          (fun x hx => hacs x (List.mem_cons_of_mem c hx)) hnext
          (fun i hi hlt => by
            by_cases he : i = z + run
            · rw [he, hget, h0]
            · exact hzeros i hi (by omega))
          (by omega) hz hturns hs
        refine ⟨z', s', hload, h', hle, hiff.trans ?_⟩
        rw [List.forall_mem_cons]
        exact ⟨fun h => ⟨h0, h⟩, fun h => h.2⟩
      · rw [if_neg h0, List.append_assoc, List.append_assoc,
          List.append_assoc] at hs
        obtain ⟨m, rfl⟩ : ∃ m, turns = m + 1 + run / 16 :=
          ⟨turns - 1 - run / 16, by omega⟩
        obtain ⟨s₃, hstep, h₃⟩ := loadAc_coefficient hR hc hfit m
          (hacs c List.mem_cons_self) h0 hget hzeros (by omega) hs
        have hne : ¬ ∀ c' ∈ c :: acs, c' = 0 :=
          fun hall => h0 (hall c List.mem_cons_self)
        rw [hstep]
        by_cases hend : z + run + 1 < 64
        · obtain ⟨z', s', hload, h', hle, -⟩ := ih m (z + run + 1) 0
            (fun x hx => hacs x (List.mem_cons_of_mem c hx)) hnext
            (fun i hi hlt => absurd hlt (by omega)) (by omega) hend
            (by omega) h₃
          rw [if_pos hend]
          exact ⟨z', s', hload, h', by omega,
            ⟨fun h => absurd h (by omega), fun h => absurd h hne⟩⟩
        · have hnil : acs = [] := List.eq_nil_of_length_eq_zero (by omega)
          rw [hnil, Huff.acBits, if_neg (by omega), List.nil_append] at h₃
          have h64 : z + run + 1 = 64 := by omega
          rw [if_neg hend, h64]
          exact ⟨64, s₃, rfl, h₃, by omega,
            ⟨fun h => absurd h (by omega), fun h => absurd h hne⟩⟩

/-- The tables of a component: its Huffman tables and its quantizers. -/
structure Tables where
  dc : Huff
  ac : Huff
  dqf : List Int

/-- The decoder has these tables for the component, with a code for
everything the coder can ask for. -/
structure Jdec.Has (jd : Jdec ι) (cmp : Nat) (t : Tables) : Prop where
  codesDc : t.dc.CodesDc
  codesAc : t.ac.CodesAc
  dc : jd.huff (if cmp ≠ 0 then 1 else 0) 0 = some t.dc.tbl
  ac : jd.huff (if cmp ≠ 0 then 1 else 0) 1 = some t.ac.tbl
  quant : jd.qttbl (jd.qtid cmp) = some t.dqf

/-- Tables do not change while blocks are read. -/
theorem Jdec.Has.moved {jd : Jdec ι} {cmp : Nat} {t : Tables}
    (h : jd.Has cmp t) (s : ι) (dcv : Nat → Int) :
    ({ jd with input := s, dcv := dcv } : Jdec ι).Has cmp t :=
  ⟨h.codesDc, h.codesAc, h.dc, h.ac, h.quant⟩

/-- The coefficients of a block that the coder can code. -/
structure Codable (lastDcVal : Int) (cs : List Int) : Prop where
  length : cs.length = 64
  dc : -1024 ≤ cs.headD 0 ∧ cs.headD 0 < 1024
  diff : (cs.headD 0 - lastDcVal).natAbs < 2 ^ 11
  ac : ∀ c ∈ cs.tail, InRange c

/-- A number in the range of `int16_t` is kept by the cast. -/
theorem toInt16_eq {d : Int} (h : -32768 ≤ d) (h' : d < 32768) :
    toInt16 d = d := by
  rw [toInt16]
  exact BitVec.toInt_ofInt_eq_self (by omega) h h'

/-- The DC values with the one of a component replaced. -/
def setDc (dcv : Nat → Int) (cmp : Nat) (d : Int) : Nat → Int :=
  fun i => if i = cmp then d else dcv i

/-- From the bits a block was coded as, its coefficients are restored,
multiplied by the quantizers. -/
theorem loadBlock_spec (hR : R.Reads H) {jd : Jdec ι} {cmp : Nat} {t : Tables}
    (ht : jd.Has cmp t) (hcs : Codable (jd.dcv cmp) cs)
    (hfit : FitProducts t.dqf cs)
    (hs : H jd.input (Huff.blockBits t.dc t.ac (jd.dcv cmp) cs ++ rest)) :
    ∃ z s', loadBlock R cmp jd = .ok (⟨dequantized t.dqf cs 64, z⟩,
        { jd with input := s', dcv := setDc jd.dcv cmp (cs.headD 0) })
      ∧ H s' rest ∧ (z = 1 ↔ ∀ c ∈ cs.tail, c = 0) := by
  rw [Huff.blockBits, Huff.dcBits, List.append_assoc, List.append_assoc] at hs
  have hcount := countBits_le 32 hcs.diff
  obtain ⟨s₁, hs₁, h₁⟩ := hR.word ht.codesDc.wellFormed
    (ht.codesDc.symbol _ (Nat.lt_succ_of_le hcount)) hs
  have hdc := hcs.dc
  have hget : cs.getD 0 0 = cs.headD 0 := by
    cases cs with
    | nil => rfl
    | cons c cs => rfl
  have hload : ∀ s₂, H s₂ (t.ac.acBits cs.tail 0 ++ rest) →
      ∃ z s', loadAc R t.ac.tbl t.dqf 63 1
          (dequantize (cs.headD 0) (t.dqf.getD 0 0) :: List.replicate 63 0) s₂
          = .ok (z, dequantized t.dqf cs 64, s')
        ∧ H s' rest ∧ (z = 1 ↔ ∀ c ∈ cs.tail, c = 0) := by
    intro s₂ h₂
    have hlen := hcs.length
    have hfits : (cs.headD 0 * t.dqf.getD 0 0).natAbs < 2 ^ 31 := by
      rw [← hget]
      exact hfit 0 (by omega)
    rw [dequantize_eq hfits, dequantized_one _ hget]
    obtain ⟨z, s', hl, h', -, hz⟩ := loadAc_spec hR ht.codesAc hfit
      63 1 0 hcs.ac List.drop_one
      (fun i hi hlt => absurd hlt (by omega))
      (by rw [List.length_tail]; omega) (by omega) (by omega) h₂
    exact ⟨z, s', hl, h', hz⟩
  by_cases h0 : cs.headD 0 - jd.dcv cmp = 0
  · -- no difference: the last value stays
    have hsame : jd.dcv cmp = cs.headD 0 := by omega
    have hset : setDc jd.dcv cmp (cs.headD 0) = jd.dcv := by
      funext i
      unfold setDc
      split
      next hi => rw [hi, hsame]
      next => rfl
    rw [h0] at hs₁ h₁
    obtain ⟨z, s', hl, h', hz⟩ := hload s₁ h₁
    refine ⟨z, s', ?_, h', hz⟩
    rw [hset]
    rw [← hsame] at hl
    simp only [loadBlock, ht.dc, ht.ac, ht.quant, Option.getD_some, hs₁, bind,
      Except.bind]
    simp only [show countBits 32 (Int.natAbs 0) = 0 from rfl, ne_eq,
      not_true_eq_false, if_false, pure, Except.pure, hl]
  · obtain ⟨x, s₂, hs₂, hx, h₂⟩ := hR.value h0
      (Nat.lt_of_lt_of_le hcs.diff (by decide)) h₁
    obtain ⟨z, s', hl, h', hz⟩ := hload s₂ h₂
    have hpos : 0 < countBits 32 (cs.headD 0 - jd.dcv cmp).natAbs :=
      countBits_pos 31 (Int.natAbs_ne_zero.mpr h0)
    have hsum : jd.dcv cmp + (cs.headD 0 - jd.dcv cmp) = cs.headD 0 := by
      omega
    refine ⟨z, s', ?_, h', hz⟩
    simp only [loadBlock, ht.dc, ht.ac, ht.quant, Option.getD_some, hs₁, bind,
      Except.bind]
    rw [if_pos (by omega), hs₂]
    simp only [hx, hsum, pure, Except.pure, hl,
      toInt16_eq (d := cs.headD 0) (by omega) (by omega)]
    rfl

-- ================================================== loading many blocks

/-- What the blocks of a scan are coded as, each with its component;
`dcv` are the DC values of the blocks before. -/
def scanBits (t : Nat → Tables) :
    (dcv : Nat → Int) → List (Nat × List Int) → List Bool
  | _, [] => []
  | dcv, (cmp, cs) :: bs =>
      Huff.blockBits (t cmp).dc (t cmp).ac (dcv cmp) cs
        ++ scanBits t (setDc dcv cmp (cs.headD 0)) bs

/-- The DC values behind a list of blocks. -/
def lastDcs (dcv : Nat → Int) (bs : List (Nat × List Int)) : Nat → Int :=
  bs.foldl (fun dcv b => setDc dcv b.1 (b.2.headD 0)) dcv

/-- All blocks can be coded. -/
def AllCodable : (dcv : Nat → Int) → List (Nat × List Int) → Prop
  | _, [] => True
  | dcv, (cmp, cs) :: bs =>
      Codable (dcv cmp) cs ∧ AllCodable (setDc dcv cmp (cs.headD 0)) bs

/-- A block is loaded: its coefficients times the quantizers, and
whether there are AC coefficients at all. -/
def Restored (t : Nat → Tables) (b : Nat × List Int) (r : Block) : Prop :=
  r.tmp = dequantized (t b.1).dqf b.2 64
    ∧ (r.z = 1 ↔ ∀ c ∈ b.2.tail, c = 0)

/-- What the blocks of components that are in the image are. -/
def Coming (ncomp : Nat) (cmps : List Nat) : List Nat :=
  cmps.filter fun cmp => cmp = 0 ∨ ncomp = 3

/-- The blocks of an MCU are restored. -/
theorem loadBlocks_spec (hR : R.Reads H) {t : Nat → Tables} (cmps : List Nat)
    (jd : Jdec ι) {bs : List (Nat × List Int)}
    (ht : ∀ cmp ∈ Coming jd.ncomp cmps, jd.Has cmp (t cmp))
    (hcmps : bs.map Prod.fst = Coming jd.ncomp cmps)
    (hbs : AllCodable jd.dcv bs) (hfit : ∀ b ∈ bs, FitProducts (t b.1).dqf b.2)
    (hs : H jd.input (scanBits t jd.dcv bs ++ rest)) :
    ∃ rs s', loadBlocks R cmps jd = .ok (rs,
        { jd with input := s', dcv := lastDcs jd.dcv bs })
      ∧ H s' rest ∧ List.Forall₂ (Restored t) bs (rs.filterMap id) := by
  induction cmps generalizing jd bs with
  | nil =>
      obtain rfl : bs = [] := by
        rw [Coming, List.filter_nil] at hcmps
        exact List.map_eq_nil_iff.mp hcmps
      exact ⟨[], jd.input, rfl, hs, .nil⟩
  | cons cmp cmps ih =>
      by_cases hin : cmp = 0 ∨ jd.ncomp = 3
      · have hcoming : Coming jd.ncomp (cmp :: cmps)
            = cmp :: Coming jd.ncomp cmps :=
          List.filter_cons_of_pos (by simpa using hin)
        rw [hcoming] at ht hcmps
        obtain ⟨⟨c, cs⟩, bs, rfl⟩ : ∃ b bs', bs = b :: bs' := by
          cases bs with
          | nil => cases hcmps
          | cons b bs' => exact ⟨b, bs', rfl⟩
        rw [List.map_cons] at hcmps
        injection hcmps with hc hcmps
        obtain rfl : c = cmp := hc
        obtain ⟨hcs, hbs⟩ := hbs
        rw [scanBits, List.append_assoc] at hs
        obtain ⟨z, s₁, hl, h₁, hz⟩ := loadBlock_spec hR
          (ht c List.mem_cons_self) hcs (hfit _ List.mem_cons_self) hs
        obtain ⟨rs, s₂, hls, h₂, hall⟩ := ih
          { jd with input := s₁, dcv := setDc jd.dcv c (cs.headD 0) }
          (fun i hi => (ht i (List.mem_cons_of_mem c hi)).moved _ _)
          hcmps hbs (fun b hb => hfit b (List.mem_cons_of_mem _ hb)) h₁
        refine ⟨some ⟨dequantized (t c).dqf cs 64, z⟩ :: rs, s₂, ?_, h₂,
          .cons ⟨rfl, hz⟩ hall⟩
        have hnot : ¬ (c ≠ 0 ∧ jd.ncomp ≠ 3) := by omega
        simp only [loadBlocks, if_neg hnot, hl, hls, bind, Except.bind, pure,
          Except.pure]
        rfl
      · have hcoming : Coming jd.ncomp (cmp :: cmps) = Coming jd.ncomp cmps :=
          List.filter_cons_of_neg (by simpa using hin)
        rw [hcoming] at ht hcmps
        obtain ⟨rs, s', hls, h', hall⟩ := ih jd ht hcmps hbs hfit hs
        refine ⟨none :: rs, s', ?_, h', hall⟩
        have hout : cmp ≠ 0 ∧ jd.ncomp ≠ 3 := by omega
        simp only [loadBlocks, if_pos hout, hls, bind, Except.bind, pure,
          Except.pure]

/-- The bits of blocks in a row are in a row. -/
theorem scanBits_append (t : Nat → Tables) (dcv : Nat → Int)
    (xs ys : List (Nat × List Int)) :
    scanBits t dcv (xs ++ ys)
      = scanBits t dcv xs ++ scanBits t (lastDcs dcv xs) ys := by
  induction xs generalizing dcv with
  | nil => rfl
  | cons x xs ih =>
      rw [List.cons_append, scanBits, scanBits, ih, List.append_assoc]
      rfl

/-- Blocks in a row can be coded if both parts can. -/
theorem allCodable_append {dcv : Nat → Int} {xs ys : List (Nat × List Int)} :
    AllCodable dcv (xs ++ ys)
      ↔ AllCodable dcv xs ∧ AllCodable (lastDcs dcv xs) ys := by
  induction xs generalizing dcv with
  | nil => exact ⟨fun h => ⟨trivial, h⟩, fun h => h.2⟩
  | cons x xs ih =>
      rw [List.cons_append, AllCodable, AllCodable, ih, and_assoc]
      rfl

/-- The MCUs of an image are restored one after another. -/
theorem decompLoop_spec (hR : R.Reads H) {t : Nat → Tables}
    (jd : Jdec ι) {mcus : List (List (Nat × List Int))}
    {places : List (Nat × Nat)} (hplaces : places.length = mcus.length)
    (hrst : jd.nrst = 0)
    (ht : ∀ cmp ∈ Coming jd.ncomp (mcuComponents (jd.msx * jd.msy)),
      jd.Has cmp (t cmp))
    (hcmps : ∀ m ∈ mcus, m.map Prod.fst
      = Coming jd.ncomp (mcuComponents (jd.msx * jd.msy)))
    (hbs : AllCodable jd.dcv mcus.flatten)
    (hfit : ∀ b ∈ mcus.flatten, FitProducts (t b.1).dqf b.2)
    (hs : H jd.input (scanBits t jd.dcv mcus.flatten ++ rest)) (rst rsc : Nat) :
    ∃ rs s', decompLoop R places rst rsc jd = .ok (rs,
        { jd with input := s', dcv := lastDcs jd.dcv mcus.flatten })
      ∧ H s' rest
      ∧ List.Forall₂ (fun m r => List.Forall₂ (Restored t) m (r.filterMap id))
        mcus rs := by
  induction mcus generalizing places jd with
  | nil =>
      obtain rfl : places = [] := List.eq_nil_of_length_eq_zero hplaces
      exact ⟨[], jd.input, rfl, hs, .nil⟩
  | cons m mcus ih =>
      obtain ⟨p, places, rfl⟩ : ∃ p ps, places = p :: ps := by
        cases places with
        | nil => cases hplaces
        | cons p ps => exact ⟨p, ps, rfl⟩
      rw [List.flatten_cons] at hbs hs hfit ⊢
      rw [scanBits_append, List.append_assoc] at hs
      obtain ⟨hm, hms⟩ := allCodable_append.mp hbs
      obtain ⟨r, s₁, hl, h₁, hall⟩ := loadBlocks_spec hR
        (mcuComponents (jd.msx * jd.msy)) jd ht (hcmps m List.mem_cons_self) hm
        (fun b hb => hfit b (List.mem_append_left _ hb)) hs
      obtain ⟨rs, s₂, hls, h₂, halls⟩ := ih
        { jd with input := s₁, dcv := lastDcs jd.dcv m }
        (Nat.succ.inj hplaces) hrst (fun i hi => (ht i hi).moved _ _)
        (fun m' hm' => hcmps m' (List.mem_cons_of_mem m hm')) hms
        (fun b hb => hfit b (List.mem_append_right _ hb)) h₁
      refine ⟨r :: rs, s₂, ?_, h₂, .cons hall halls⟩
      have hlast : lastDcs jd.dcv (m ++ mcus.flatten)
          = lastDcs (lastDcs jd.dcv m) mcus.flatten := List.foldl_append
      have hnot : ¬ jd.nrst ≠ 0 := by omega
      simp only [decompLoop, if_neg hnot, mcuLoad, hl, hls, bind, Except.bind,
        pure, Except.pure, hlast]

end Load

end SitNChow.Jpeg
