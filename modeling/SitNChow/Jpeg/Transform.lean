/-
The forward transform of the JPEG encoder and the quantization.

`DCT2D` computes with 32-bit integers, and its multiplications cut their
first factor off to 16 bits. `DCT1D` is written here for any arithmetic
with such a multiplication; `dct1d32` is the source's, `dct1dExact` the
one over the integers, where nothing is cut off or wraps around.

All of its results but the first depend on differences of its inputs
only. So what matters is how far the inputs can lie apart, and for the
samples of an image, a byte less 128, it is just little enough: no
multiplication cuts anything off and no sum wraps around, in either pass
(`rowPass_exact`, `colPass_exact`). The coefficients then lie between
-1024 and 1020 (`dct2d_exact`), which is what the entropy coder has codes
for.
-/
import Mathlib.Data.Int.Basic
import SitNChow.Jpeg.Decoder

namespace SitNChow.Jpeg

-- ========================================================= the transform

/-- Eight values of a row or a column. -/
structure Eight (α : Type) where
  s0 : α
  s1 : α
  s2 : α
  s3 : α
  s4 : α
  s5 : α
  s6 : α
  s7 : α

/-- `DCT1D`, with `mul` for `DCT_MUL` -/
def dct1d {α : Type} [Add α] [Sub α] (mul : α → Int → α) (s : Eight α) :
    Eight α :=
  let t0 := s.s0 + s.s7
  let t7 := s.s0 - s.s7
  let t1 := s.s1 + s.s6
  let t6 := s.s1 - s.s6
  let t2 := s.s2 + s.s5
  let t5 := s.s2 - s.s5
  let t3 := s.s3 + s.s4
  let t4 := s.s3 - s.s4
  let t10 := t0 + t3
  let t13 := t0 - t3
  let t11 := t1 + t2
  let t12 := t1 - t2
  let u1 := mul (t12 + t13) 4433
  let s2 := u1 + mul t13 6270
  let s6 := u1 + mul t12 (-15137)
  let u1 := t4 + t7
  let u2 := t5 + t6
  let u3 := t4 + t6
  let u4 := t5 + t7
  let z5 := mul (u3 + u4) 9633
  let t4 := mul t4 2446
  let t5 := mul t5 16819
  let t6 := mul t6 25172
  let t7 := mul t7 12299
  let u1 := mul u1 (-7373)
  let u2 := mul u2 (-20995)
  let u3 := mul u3 (-16069)
  let u4 := mul u4 (-3196)
  let u3 := u3 + z5
  let u4 := u4 + z5
  { s0 := t10 + t11, s1 := t7 + u1 + u4, s2 := s2, s3 := t6 + u2 + u3
    s4 := t10 - t11, s5 := t5 + u2 + u4, s6 := s6, s7 := t4 + u1 + u3 }

/-- `DCT_MUL` -/
def dctMul (var : Int32) (c : Int) : Int32 := var.toInt16.toInt32 * Int32.ofInt c

/-- The source's transform of a row or a column. -/
def dct1d32 (s : Eight Int32) : Eight Int32 := dct1d dctMul s

/-- The same over the integers. -/
def dct1dExact (s : Eight Int) : Eight Int := dct1d (fun a c => a * c) s

/-- `DCT_DESCALE` -/
def dctDescale (x : Int32) (n : Nat) : Int32 :=
  (x + (1 <<< Int32.ofNat (n - 1))) >>> Int32.ofNat n

/-- `DCT_DESCALE` over the integers. -/
def descaleExact (x : Int) (n : Nat) : Int := (x + 2 ^ (n - 1)) / 2 ^ n

/-- What is done with a row, for `ROW_BITS` 2 and `CONST_BITS` 13. -/
def rowPass (s : Eight Int32) : Eight Int32 :=
  let s := dct1d32 s
  { s0 := s.s0 <<< 2, s1 := dctDescale s.s1 11, s2 := dctDescale s.s2 11
    s3 := dctDescale s.s3 11, s4 := s.s4 <<< 2, s5 := dctDescale s.s5 11
    s6 := dctDescale s.s6 11, s7 := dctDescale s.s7 11 }

/-- What is done with a row, over the integers. -/
def rowExact (s : Eight Int) : Eight Int :=
  let s := dct1dExact s
  { s0 := s.s0 * 4, s1 := descaleExact s.s1 11, s2 := descaleExact s.s2 11
    s3 := descaleExact s.s3 11, s4 := s.s4 * 4, s5 := descaleExact s.s5 11
    s6 := descaleExact s.s6 11, s7 := descaleExact s.s7 11 }

/-- What is done with a column. -/
def colPass (s : Eight Int32) : Eight Int32 :=
  let s := dct1d32 s
  { s0 := dctDescale s.s0 5, s1 := dctDescale s.s1 18, s2 := dctDescale s.s2 18
    s3 := dctDescale s.s3 18, s4 := dctDescale s.s4 5, s5 := dctDescale s.s5 18
    s6 := dctDescale s.s6 18, s7 := dctDescale s.s7 18 }

/-- What is done with a column, over the integers. -/
def colExact (s : Eight Int) : Eight Int :=
  let s := dct1dExact s
  { s0 := descaleExact s.s0 5, s1 := descaleExact s.s1 18
    s2 := descaleExact s.s2 18, s3 := descaleExact s.s3 18
    s4 := descaleExact s.s4 5, s5 := descaleExact s.s5 18
    s6 := descaleExact s.s6 18, s7 := descaleExact s.s7 18 }

/-- The values in their order. -/
def Eight.toList {α : Type} (s : Eight α) : List α :=
  [s.s0, s.s1, s.s2, s.s3, s.s4, s.s5, s.s6, s.s7]

/-- The eight values that lie `step` apart from `start` on. -/
def eightAt {α : Type} (d : α) (p : List α) (start step : Nat) : Eight α where
  s0 := p.getD start d
  s1 := p.getD (start + step) d
  s2 := p.getD (start + 2 * step) d
  s3 := p.getD (start + 3 * step) d
  s4 := p.getD (start + 4 * step) d
  s5 := p.getD (start + 5 * step) d
  s6 := p.getD (start + 6 * step) d
  s7 := p.getD (start + 7 * step) d

/-- The rows of a block, and then its columns. -/
def pass2d {α : Type} (d : α) (row col : Eight α → Eight α) (p : List α) :
    List α :=
  let q := (List.range 8).flatMap fun r => (row (eightAt d p (8 * r) 1)).toList
  (List.range 8).flatMap fun i =>
    (List.range 8).map fun c => (col (eightAt d q c 8)).toList.getD i d

/-- `DCT2D` -/
def dct2d (p : List Int32) : List Int32 := pass2d 0 rowPass colPass p

/-- The transform over the integers. -/
def dct2dExact (p : List Int) : List Int := pass2d 0 rowExact colExact p

-- ========================================================== quantization

/-- A turn of `load_quantized_coefficients`. -/
def quantize (q j : Int) : Int :=
  if j < 0 then
    let j := -j + q >>> (1 : Nat)
    if j < q then 0 else toInt16 (-(j.tdiv q))
  else
    let j := j + q >>> (1 : Nat)
    if j < q then 0 else toInt16 (j.tdiv q)

/-- `load_quantized_coefficients` -/
def loadQuantizedCoefficients (quant : List Nat) (samples : List Int32) :
    List Int :=
  (List.range 64).map fun i =>
    quantize (quant.getD i 0) (samples.getD (zig.getD i 0) 0).toInt

/-- `m_params.m_quality` as a percentage. -/
def qualityScale (quality : Nat) : Nat :=
  if quality < 50 then 5000 / quality else 200 - quality * 2

/-- `compute_quant_table` -/
def computeQuantTable (quality : Nat) (src : List Nat) : List Nat :=
  src.map fun j => min (max ((j * qualityScale quality + 50) / 100) 1) 255

/-- `s_std_lum_quant` -/
def sStdLumQuant : List Nat := [
  16, 11, 12, 14, 12, 10, 16, 14, 13, 14, 18, 17, 16, 19, 24, 40,
  26, 24, 22, 22, 24, 49, 35, 37, 29, 40, 58, 51, 61, 60, 57, 51,
  56, 55, 64, 72, 92, 78, 64, 68, 87, 69, 55, 56, 80, 109, 81, 87,
  95, 98, 103, 104, 103, 62, 77, 113, 121, 112, 100, 120, 92, 101, 103, 99]

/-- `s_std_croma_quant` -/
def sStdCromaQuant : List Nat := [
  17, 18, 18, 24, 21, 24, 47, 26, 26, 47, 99, 66, 56, 66, 99, 99,
  99, 99, 99, 99, 99, 99, 99, 99, 99, 99, 99, 99, 99, 99, 99, 99,
  99, 99, 99, 99, 99, 99, 99, 99, 99, 99, 99, 99, 99, 99, 99, 99,
  99, 99, 99, 99, 99, 99, 99, 99, 99, 99, 99, 99, 99, 99, 99, 99]

-- ============================================ nothing is cut off

/-- An `int32` value that is the integer `a`. -/
def Is (x : Int32) (a : Int) : Prop := x.toInt = a

variable {x y : Int32} {a b c : Int}

/-- A number in the range of `int32_t` is its own remainder. -/
theorem bmod_eq (h : -2147483648 ≤ a) (h' : a < 2147483648) :
    a.bmod (2 ^ 32) = a :=
  Int.bmod_eq_of_le (by omega) (by omega)

/-- A sum that stays in the range is exact. -/
theorem Is.add (hx : Is x a) (hy : Is y b) (h : -2147483648 ≤ a + b)
    (h' : a + b < 2147483648) : Is (x + y) (a + b) := by
  unfold Is at *
  rw [Int32.toInt_add, hx, hy, bmod_eq h h']

/-- So is a difference. -/
theorem Is.sub (hx : Is x a) (hy : Is y b) (h : -2147483648 ≤ a - b)
    (h' : a - b < 2147483648) : Is (x - y) (a - b) := by
  unfold Is at *
  rw [Int32.toInt_sub, hx, hy, bmod_eq h h']

/-- A product is exact when its first factor has 16 bits. -/
theorem Is.mul (hx : Is x a) (h : -32768 ≤ a) (h' : a < 32768)
    (hc : -32768 ≤ c) (hc' : c < 32768) : Is (dctMul x c) (a * c) := by
  unfold Is at *
  have hcut : a.bmod (2 ^ 16) = a := Int.bmod_eq_of_le (by omega) (by omega)
  have hconst : (Int32.ofInt c).toInt = c :=
    Int32.toInt_ofInt_of_le (by omega) (by omega)
  have habs : (a * c).natAbs ≤ 32768 * 32768 := by
    rw [Int.natAbs_mul]
    exact Nat.mul_le_mul (by omega) (by omega)
  rw [dctMul, Int32.toInt_mul, Int16.toInt_toInt32, Int32.toInt_toInt16, hx,
    hcut, hconst, bmod_eq (by omega) (by omega)]

/-- Eight `int32` values that are these integers. -/
structure Eight.Are (x : Eight Int32) (a : Eight Int) : Prop where
  s0 : Is x.s0 a.s0
  s1 : Is x.s1 a.s1
  s2 : Is x.s2 a.s2
  s3 : Is x.s3 a.s3
  s4 : Is x.s4 a.s4
  s5 : Is x.s5 a.s5
  s6 : Is x.s6 a.s6
  s7 : Is x.s7 a.s7

/-- Eight integers between two bounds. -/
structure Eight.Between (lo hi : Int) (a : Eight Int) : Prop where
  s0 : lo ≤ a.s0 ∧ a.s0 ≤ hi
  s1 : lo ≤ a.s1 ∧ a.s1 ≤ hi
  s2 : lo ≤ a.s2 ∧ a.s2 ≤ hi
  s3 : lo ≤ a.s3 ∧ a.s3 ≤ hi
  s4 : lo ≤ a.s4 ∧ a.s4 ≤ hi
  s5 : lo ≤ a.s5 ∧ a.s5 ≤ hi
  s6 : lo ≤ a.s6 ∧ a.s6 ≤ hi
  s7 : lo ≤ a.s7 ∧ a.s7 ≤ hi

variable {s : Eight Int32} {e : Eight Int} {lo hi : Int}

/-- Nothing is cut off and nothing wraps around when the inputs lie at
most 8160 apart: the factors are sums of at most four differences, and
four times 8160 is less than 2 ^ 15. -/
theorem dct1d32_exact (h : s.Are e) (hb : e.Between lo hi)
    (hlo : -4096 ≤ lo) (hhi : hi ≤ 4096) (hspread : hi - lo ≤ 8160) :
    (dct1d32 s).Are (dct1dExact e) := by
  have b0 := hb.s0
  have b1 := hb.s1
  have b2 := hb.s2
  have b3 := hb.s3
  have b4 := hb.s4
  have b5 := hb.s5
  have b6 := hb.s6
  have b7 := hb.s7
  have t0 := h.s0.add h.s7 (by omega) (by omega)
  have t7 := h.s0.sub h.s7 (by omega) (by omega)
  have t1 := h.s1.add h.s6 (by omega) (by omega)
  have t6 := h.s1.sub h.s6 (by omega) (by omega)
  have t2 := h.s2.add h.s5 (by omega) (by omega)
  have t5 := h.s2.sub h.s5 (by omega) (by omega)
  have t3 := h.s3.add h.s4 (by omega) (by omega)
  have t4 := h.s3.sub h.s4 (by omega) (by omega)
  have t10 := t0.add t3 (by omega) (by omega)
  have t13 := t0.sub t3 (by omega) (by omega)
  have t11 := t1.add t2 (by omega) (by omega)
  have t12 := t1.sub t2 (by omega) (by omega)
  have e1 := (t12.add t13 (by omega) (by omega)).mul (c := 4433)
    (by omega) (by omega) (by omega) (by omega)
  have e2 := t13.mul (c := 6270) (by omega) (by omega) (by omega) (by omega)
  have e6 := t12.mul (c := -15137) (by omega) (by omega) (by omega) (by omega)
  have u1 := t4.add t7 (by omega) (by omega)
  have u2 := t5.add t6 (by omega) (by omega)
  have u3 := t4.add t6 (by omega) (by omega)
  have u4 := t5.add t7 (by omega) (by omega)
  have z5 := (u3.add u4 (by omega) (by omega)).mul (c := 9633)
    (by omega) (by omega) (by omega) (by omega)
  have m4 := t4.mul (c := 2446) (by omega) (by omega) (by omega) (by omega)
  have m5 := t5.mul (c := 16819) (by omega) (by omega) (by omega) (by omega)
  have m6 := t6.mul (c := 25172) (by omega) (by omega) (by omega) (by omega)
  have m7 := t7.mul (c := 12299) (by omega) (by omega) (by omega) (by omega)
  have n1 := u1.mul (c := -7373) (by omega) (by omega) (by omega) (by omega)
  have n2 := u2.mul (c := -20995) (by omega) (by omega) (by omega) (by omega)
  have n3 := (u3.mul (c := -16069) (by omega) (by omega) (by omega)
    (by omega)).add z5 (by omega) (by omega)
  have n4 := (u4.mul (c := -3196) (by omega) (by omega) (by omega)
    (by omega)).add z5 (by omega) (by omega)
  have s0 := t10.add t11 (by omega) (by omega)
  have s1 := (m7.add n1 (by omega) (by omega)).add n4 (by omega) (by omega)
  have s2 := e1.add e2 (by omega) (by omega)
  have s3 := (m6.add n2 (by omega) (by omega)).add n3 (by omega) (by omega)
  have s4 := t10.sub t11 (by omega) (by omega)
  have s5 := (m5.add n2 (by omega) (by omega)).add n4 (by omega) (by omega)
  have s6 := e1.add e6 (by omega) (by omega)
  have s7 := (m4.add n1 (by omega) (by omega)).add n3 (by omega) (by omega)
  exact ⟨s0, s1, s2, s3, s4, s5, s6, s7⟩

/-- How large the results are, for inputs at most `d` apart. -/
structure Results (lo hi d : Int) (r : Eight Int) : Prop where
  s0 : 8 * lo ≤ r.s0 ∧ r.s0 ≤ 8 * hi
  s1 : -(29693 * d) ≤ r.s1 ∧ r.s1 ≤ 29693 * d
  s2 : -(30274 * d) ≤ r.s2 ∧ r.s2 ≤ 30274 * d
  s3 : -(29693 * d) ≤ r.s3 ∧ r.s3 ≤ 29693 * d
  s4 : -(4 * d) ≤ r.s4 ∧ r.s4 ≤ 4 * d
  s5 : -(29693 * d) ≤ r.s5 ∧ r.s5 ≤ 29693 * d
  s6 : -(30274 * d) ≤ r.s6 ∧ r.s6 ≤ 30274 * d
  s7 : -(29693 * d) ≤ r.s7 ∧ r.s7 ≤ 29693 * d

/-- The bounds of the eight results, from the bounds of the inputs and of
their differences. -/
theorem dct1dExact_results {d : Int} (hb : e.Between lo hi)
    (hd : hi - lo ≤ d) : Results lo hi d (dct1dExact e) := by
  have b0 := hb.s0
  have b1 := hb.s1
  have b2 := hb.s2
  have b3 := hb.s3
  have b4 := hb.s4
  have b5 := hb.s5
  have b6 := hb.s6
  have b7 := hb.s7
  constructor <;> simp only [dct1dExact, dct1d] <;> omega

-- ================================================== scaling the results

/-- So is a shift by two. -/
theorem Is.shiftLeft (hx : Is x a) (h : -2147483648 ≤ a * 4)
    (h' : a * 4 < 2147483648) : Is (x <<< 2) (a * 4) := by
  have hmul : x <<< 2 = x * 4 := by
    apply Int32.toBitVec_inj.mp
    have h2 : (2 : Int32).toBitVec.smod 32 = 2#32 := by decide
    rw [Int32.toBitVec_shiftLeft, Int32.toBitVec_mul, h2,
      BitVec.shiftLeft_eq', BitVec.shiftLeft_eq_mul_twoPow]
    rfl
  unfold Is at *
  rw [hmul, Int32.toInt_mul, hx]
  exact bmod_eq h h'

/-- Descaling is a division with rounding. -/
theorem Is.descale {n : Nat} (hx : Is x a)
    (hn : ((Int32.ofNat n).toBitVec.smod 32).toNat = n)
    (hone : (1 <<< Int32.ofNat (n - 1)).toInt = 2 ^ (n - 1))
    (h : -2147483648 ≤ a + 2 ^ (n - 1)) (h' : a + 2 ^ (n - 1) < 2147483648) :
    Is (dctDescale x n) (descaleExact a n) := by
  have hadd := hx.add hone h h'
  unfold Is at *
  rw [dctDescale, ← Int32.toInt_toBitVec, Int32.toBitVec_shiftRight,
    BitVec.toInt_sshiftRight', hn, Int32.toInt_toBitVec, hadd,
    Int.shiftRight_eq_div_pow, descaleExact]
  norm_cast

/-- Descaling by five bits is exact in the range. -/
theorem Is.descale5 (hx : Is x a) (h : -2147483648 ≤ a + 16)
    (h' : a + 16 < 2147483648) : Is (dctDescale x 5) (descaleExact a 5) :=
  hx.descale (by decide) (by decide) h h'

/-- So is descaling by eleven bits. -/
theorem Is.descale11 (hx : Is x a) (h : -2147483648 ≤ a + 1024)
    (h' : a + 1024 < 2147483648) : Is (dctDescale x 11) (descaleExact a 11) :=
  hx.descale (by decide) (by decide) h h'

/-- So is descaling by eighteen bits. -/
theorem Is.descale18 (hx : Is x a) (h : -2147483648 ≤ a + 131072)
    (h' : a + 131072 < 2147483648) :
    Is (dctDescale x 18) (descaleExact a 18) :=
  hx.descale (by decide) (by decide) h h'

/-- The values of a row or column after its pass: the first between its
own bounds, the others at most `m` away from zero. -/
structure Scaled (lo hi m : Int) (r : Eight Int) : Prop where
  s0 : lo ≤ r.s0 ∧ r.s0 ≤ hi
  s1 : -m ≤ r.s1 ∧ r.s1 ≤ m
  s2 : -m ≤ r.s2 ∧ r.s2 ≤ m
  s3 : -m ≤ r.s3 ∧ r.s3 ≤ m
  s4 : -m ≤ r.s4 ∧ r.s4 ≤ m
  s5 : -m ≤ r.s5 ∧ r.s5 ≤ m
  s6 : -m ≤ r.s6 ∧ r.s6 ≤ m
  s7 : -m ≤ r.s7 ∧ r.s7 ≤ m

/-- A row of samples. Its first value can lie further from zero than the
others. -/
theorem rowPass_exact (h : s.Are e) (hb : e.Between (-128) 127) :
    (rowPass s).Are (rowExact e) ∧ Scaled (-4096) 4064 4080 (rowExact e) := by
  have hd := dct1d32_exact h hb (by omega) (by omega) (by omega)
  obtain ⟨r0, r1, r2, r3, r4, r5, r6, r7⟩ :=
    dct1dExact_results (d := 255) hb (by omega)
  refine ⟨⟨?_, ?_, ?_, ?_, ?_, ?_, ?_, ?_⟩, ?_⟩
  · exact hd.s0.shiftLeft (by omega) (by omega)
  · exact hd.s1.descale11 (by omega) (by omega)
  · exact hd.s2.descale11 (by omega) (by omega)
  · exact hd.s3.descale11 (by omega) (by omega)
  · exact hd.s4.shiftLeft (by omega) (by omega)
  · exact hd.s5.descale11 (by omega) (by omega)
  · exact hd.s6.descale11 (by omega) (by omega)
  · exact hd.s7.descale11 (by omega) (by omega)
  · constructor <;> simp only [rowExact, descaleExact] <;> omega

/-- A column of values that lie at most 8160 apart. -/
theorem colPass_exact (h : s.Are e) (hb : e.Between lo hi)
    (hlo : -4096 ≤ lo) (hhi : hi ≤ 4080) (hspread : hi - lo ≤ 8160) :
    (colPass s).Are (colExact e)
      ∧ Scaled ((8 * lo + 16) / 32) ((8 * hi + 16) / 32) 1020
        (colExact e) := by
  have hd := dct1d32_exact h hb (by omega) (by omega) (by omega)
  obtain ⟨r0, r1, r2, r3, r4, r5, r6, r7⟩ :=
    dct1dExact_results (d := 8160) hb (by omega)
  refine ⟨⟨?_, ?_, ?_, ?_, ?_, ?_, ?_, ?_⟩, ?_⟩
  · exact hd.s0.descale5 (by omega) (by omega)
  · exact hd.s1.descale18 (by omega) (by omega)
  · exact hd.s2.descale18 (by omega) (by omega)
  · exact hd.s3.descale18 (by omega) (by omega)
  · exact hd.s4.descale5 (by omega) (by omega)
  · exact hd.s5.descale18 (by omega) (by omega)
  · exact hd.s6.descale18 (by omega) (by omega)
  · exact hd.s7.descale18 (by omega) (by omega)
  · constructor <;> simp only [colExact, descaleExact] <;> omega

-- =========================================================== both passes

/-- The results other than the first are within the bound. -/
theorem Scaled.getD {m : Int} (h : Scaled lo hi m e) :
    ∀ k, 0 < k → k < 8 → -m ≤ e.toList.getD k 0 ∧ e.toList.getD k 0 ≤ m := by
  intro k hk hk8
  match k, hk, hk8 with
  | 1, _, _ => exact h.s1
  | 2, _, _ => exact h.s2
  | 3, _, _ => exact h.s3
  | 4, _, _ => exact h.s4
  | 5, _, _ => exact h.s5
  | 6, _, _ => exact h.s6
  | 7, _, _ => exact h.s7

/-- Eight numbers are what they should be one by one. -/
theorem Eight.Are.getD (h : s.Are e) :
    ∀ k, k < 8 → Is (s.toList.getD k 0) (e.toList.getD k 0) := by
  intro k hk
  match k, hk with
  | 0, _ => exact h.s0
  | 1, _ => exact h.s1
  | 2, _ => exact h.s2
  | 3, _ => exact h.s3
  | 4, _ => exact h.s4
  | 5, _ => exact h.s5
  | 6, _ => exact h.s6
  | 7, _ => exact h.s7

section Lists

variable {α : Type} {d : α} {f : Nat → List α} {m n i j : Nat}

/-- Pieces of one length in a row. -/
theorem length_flatMap_range (hf : ∀ i, (f i).length = m) (n : Nat) :
    ((List.range n).flatMap f).length = m * n := by
  induction n with
  | zero => rfl
  | succ n ih =>
      rw [List.range_succ, List.flatMap_append, List.length_append, ih,
        List.flatMap_singleton, hf, Nat.mul_succ]

/-- An entry of a table. -/
theorem getD_map_range {g : Nat → α} (hi : i < n) :
    ((List.range n).map g).getD i d = g i := by
  rw [List.getD_eq_getElem _ _ (by rwa [List.length_map, List.length_range]),
    List.getElem_map, List.getElem_range]

/-- An entry of a list of rows. -/
theorem getD_flatMap_range (hf : ∀ i, (f i).length = m) (hi : i < n)
    (hj : j < m) :
    ((List.range n).flatMap f).getD (m * i + j) d = (f i).getD j d := by
  induction n with
  | zero => exact absurd hi (Nat.not_lt_zero i)
  | succ n ih =>
      have hlen := length_flatMap_range hf n
      rw [List.range_succ, List.flatMap_append, List.flatMap_singleton]
      by_cases he : i = n
      · rw [he, List.getD_append_right _ _ _ _ (by omega), hlen,
          Nat.add_sub_cancel_left]
      · have hlt : m * i + j < m * n := by
          have := Nat.mul_le_mul_left m (show i + 1 ≤ n by omega)
          rw [Nat.mul_succ] at this
          omega
        rw [List.getD_append _ _ _ _ (by omega)]
        exact ih (by omega)

end Lists

/-- The rows of a block after the first pass. -/
def rows {α : Type} (d : α) (row : Eight α → Eight α) (p : List α) : List α :=
  (List.range 8).flatMap fun r => (row (eightAt d p (8 * r) 1)).toList

/-- The first pass transforms each row. -/
theorem rows_getD {α : Type} (d : α) (row : Eight α → Eight α) (p : List α)
    {r c : Nat} (hr : r < 8) (hc : c < 8) :
    (rows d row p).getD (8 * r + c) d
      = (row (eightAt d p (8 * r) 1)).toList.getD c d :=
  getD_flatMap_range (fun _ => rfl) hr hc

/-- The second pass transforms each column of what the first has made. -/
theorem pass2d_getD {α : Type} (d : α) (row col : Eight α → Eight α)
    (p : List α) {i c : Nat} (hi : i < 8) (hc : c < 8) :
    (pass2d d row col p).getD (8 * i + c) d
      = (col (eightAt d (rows d row p) c 8)).toList.getD i d := by
  have hlen : ∀ i, ((List.range 8).map fun c =>
      (col (eightAt d (rows d row p) c 8)).toList.getD i d).length = 8 :=
    fun _ => by rw [List.length_map, List.length_range]
  rw [pass2d, ← rows]
  rw [getD_flatMap_range hlen hi hc, getD_map_range hc]

/-- Samples of an image: a byte, less 128. -/
structure Samples (p : List Int32) (e : List Int) : Prop where
  are : ∀ i < 64, Is (p.getD i 0) (e.getD i 0)
  between : ∀ i < 64, -128 ≤ e.getD i 0 ∧ e.getD i 0 ≤ 127

variable {p : List Int32} {es : List Int}

/-- A row of samples is exact and within a sample's range. -/
theorem Samples.row (h : Samples p es) {r : Nat} (hr : r < 8) :
    (eightAt 0 p (8 * r) 1).Are (eightAt 0 es (8 * r) 1)
      ∧ (eightAt 0 es (8 * r) 1).Between (-128) 127 := by
  constructor
  · exact ⟨h.are _ (by omega), h.are _ (by omega), h.are _ (by omega),
      h.are _ (by omega), h.are _ (by omega), h.are _ (by omega),
      h.are _ (by omega), h.are _ (by omega)⟩
  · exact ⟨h.between _ (by omega), h.between _ (by omega),
      h.between _ (by omega), h.between _ (by omega), h.between _ (by omega),
      h.between _ (by omega), h.between _ (by omega), h.between _ (by omega)⟩

/-- The values after the first pass. The first column lies between -4096
and 4064, every other one between -4080 and 4080: 8160 apart, all of
them. -/
theorem Samples.rows (h : Samples p es) {r c : Nat} (hr : r < 8) (hc : c < 8) :
    Is ((rows 0 rowPass p).getD (8 * r + c) 0)
        ((rows 0 rowExact es).getD (8 * r + c) 0)
      ∧ (if c = 0 then -4096 else -4080)
        ≤ (rows 0 rowExact es).getD (8 * r + c) 0
      ∧ (rows 0 rowExact es).getD (8 * r + c) 0
        ≤ (if c = 0 then 4064 else 4080) := by
  obtain ⟨hare, hscaled⟩ := rowPass_exact (h.row hr).1 (h.row hr).2
  rw [rows_getD _ _ _ hr hc, rows_getD _ _ _ hr hc]
  refine ⟨hare.getD c hc, ?_⟩
  by_cases h0 : c = 0
  · rw [if_pos h0, if_pos h0, h0]
    exact hscaled.s0
  · rw [if_neg h0, if_neg h0]
    exact hscaled.getD c (by omega) hc

/-- A column behind the first pass is exact and within the bounds of its
place. -/
theorem Samples.column (h : Samples p es) {c : Nat} (hc : c < 8) :
    (eightAt 0 (Jpeg.rows 0 rowPass p) c 8).Are
        (eightAt 0 (Jpeg.rows 0 rowExact es) c 8)
      ∧ (eightAt 0 (Jpeg.rows 0 rowExact es) c 8).Between
        (if c = 0 then -4096 else -4080) (if c = 0 then 4064 else 4080) := by
  have hk : ∀ k < 8, Is ((Jpeg.rows 0 rowPass p).getD (c + k * 8) 0)
        ((Jpeg.rows 0 rowExact es).getD (c + k * 8) 0)
      ∧ (if c = 0 then -4096 else -4080)
        ≤ (Jpeg.rows 0 rowExact es).getD (c + k * 8) 0
      ∧ (Jpeg.rows 0 rowExact es).getD (c + k * 8) 0
        ≤ (if c = 0 then 4064 else 4080) := by
    intro k hk
    have := h.rows (r := k) hk hc
    rwa [Nat.mul_comm 8, Nat.add_comm] at this
  constructor
  · exact ⟨(hk 0 (by omega)).1, (hk 1 (by omega)).1, (hk 2 (by omega)).1,
      (hk 3 (by omega)).1, (hk 4 (by omega)).1, (hk 5 (by omega)).1,
      (hk 6 (by omega)).1, (hk 7 (by omega)).1⟩
  · exact ⟨(hk 0 (by omega)).2, (hk 1 (by omega)).2, (hk 2 (by omega)).2,
      (hk 3 (by omega)).2, (hk 4 (by omega)).2, (hk 5 (by omega)).2,
      (hk 6 (by omega)).2, (hk 7 (by omega)).2⟩

/-- The transform of an image's samples is the one over the integers,
and every coefficient but the first lies within 1020. -/
theorem dct2d_exact (h : Samples p es) {k : Nat} (hk : k < 64) :
    Is ((dct2d p).getD k 0) ((dct2dExact es).getD k 0)
      ∧ (if k = 0 then -1024 else -1020) ≤ (dct2dExact es).getD k 0
      ∧ (dct2dExact es).getD k 0 ≤ 1020 := by
  obtain ⟨i, c, hi, hc, rfl⟩ : ∃ i c, i < 8 ∧ c < 8 ∧ k = 8 * i + c :=
    ⟨k / 8, k % 8, by omega, by omega, by omega⟩
  obtain ⟨hcol, hbetween⟩ := h.column hc
  rw [dct2d, dct2dExact, pass2d_getD _ _ _ _ hi hc, pass2d_getD _ _ _ _ hi hc]
  by_cases h0 : c = 0
  · rw [if_pos h0, if_pos h0] at hbetween
    obtain ⟨hare, hscaled⟩ := colPass_exact hcol hbetween (by omega) (by omega)
      (by omega)
    refine ⟨hare.getD i hi, ?_⟩
    by_cases hi0 : i = 0
    · have hs0 := hscaled.s0
      rw [if_pos (by omega), hi0]
      exact ⟨hs0.1, Int.le_trans hs0.2 (by omega)⟩
    · rw [if_neg (by omega)]
      exact hscaled.getD i (by omega) hi
  · rw [if_neg h0, if_neg h0] at hbetween
    obtain ⟨hare, hscaled⟩ := colPass_exact hcol hbetween (by omega) (by omega)
      (by omega)
    refine ⟨hare.getD i hi, ?_⟩
    rw [if_neg (by omega)]
    by_cases hi0 : i = 0
    · have hs0 := hscaled.s0
      rw [hi0]
      exact ⟨hs0.1, hs0.2⟩
    · exact hscaled.getD i (by omega) hi

/-- A block stays 64 numbers. -/
theorem length_pass2d {α : Type} (d : α) (row col : Eight α → Eight α)
    (p : List α) : (pass2d d row col p).length = 64 := by
  have hlen : ∀ i, ((List.range 8).map fun c =>
      (col (eightAt d (rows d row p) c 8)).toList.getD i d).length = 8 :=
    fun _ => by rw [List.length_map, List.length_range]
  rw [pass2d, ← rows]
  exact length_flatMap_range hlen 8

/-- The transform of a block of samples, as a whole. -/
theorem Samples.dct2d (h : Samples p es) :
    (Jpeg.dct2d p).map Int32.toInt = dct2dExact es := by
  apply List.ext_getElem
  · rw [List.length_map, Jpeg.dct2d, dct2dExact, length_pass2d, length_pass2d]
  · intro k hk hk'
    rw [List.length_map, Jpeg.dct2d, length_pass2d] at hk
    have his := (dct2d_exact h hk).1
    unfold Is at his
    rw [List.getD_eq_getElem _ _ hk',
      List.getD_eq_getElem _ _ (by rwa [Jpeg.dct2d, length_pass2d])] at his
    rw [List.getElem_map, his]

-- ======================================== what is left after quantization

/-- The coefficients of a block that are small enough for the coder,
whatever block comes before it. -/
structure Quantized (cs : List Int) : Prop where
  length : cs.length = 64
  dc : -1024 ≤ cs.headD 0 ∧ cs.headD 0 ≤ 1020
  ac : ∀ c ∈ cs.tail, InRange c

/-- The DC values of blocks that were coded. -/
def DcsInRange (dcv : Nat → Int) : Prop :=
  ∀ i, -1024 ≤ dcv i ∧ dcv i ≤ 1020

/-- The encoder starts with DC values of zero. -/
theorem dcsInRange_zero : DcsInRange fun _ => 0 :=
  fun _ => (by decide : (-1024 : Int) ≤ 0 ∧ (0 : Int) ≤ 1020)

/-- A quantized block can be coded behind any other. -/
theorem Quantized.codable {cs : List Int} (h : Quantized cs) {dcv : Nat → Int}
    (hd : DcsInRange dcv) (cmp : Nat) : Codable (dcv cmp) cs := by
  have hdc := h.dc
  have hlast := hd cmp
  exact ⟨h.length, by omega, by omega, h.ac⟩

/-- Its DC value keeps the last values in range. -/
theorem Quantized.setDc {cs : List Int} (h : Quantized cs) {dcv : Nat → Int}
    (hd : DcsInRange dcv) (cmp : Nat) :
    DcsInRange (Jpeg.setDc dcv cmp (cs.headD 0)) := by
  intro i
  unfold Jpeg.setDc
  split
  next => exact h.dc
  next => exact hd i

/-- Quantized blocks in a row can all be coded. -/
theorem allCodable_quantized {bs : List (Nat × List Int)} {dcv : Nat → Int}
    (hd : DcsInRange dcv) (h : ∀ b ∈ bs, Quantized b.2) : AllCodable dcv bs := by
  induction bs generalizing dcv with
  | nil => trivial
  | cons b bs ih =>
      have hb := h b List.mem_cons_self
      exact ⟨hb.codable hd b.1, ih (hb.setDc hd b.1)
        fun x hx => h x (List.mem_cons_of_mem b hx)⟩

/-- A rounded quotient is no larger than the number. -/
theorem div_rounded_le {j q : Nat} (hq : 0 < q) : (j + q / 2) / q ≤ j := by
  obtain ⟨m, rfl⟩ : ∃ m, q = m + 1 := ⟨q - 1, by omega⟩
  have hlt : j + (m + 1) / 2 < (m + 1) * (j + 1) := by
    have : (m + 1) * (j + 1) = m * j + m + (j + 1) := by
      rw [Nat.mul_succ, Nat.succ_mul]
      omega
    omega
  exact Nat.le_of_lt_succ (Nat.div_lt_of_lt_mul hlt)

/-- Quantizing brings a value nearer to zero. -/
theorem quantize_between {q : Nat} (hq : 0 < q) {j : Int} (hlo : lo ≤ j)
    (hhi : j ≤ hi) (h0 : lo ≤ 0) (h0' : 0 ≤ hi) (hlo16 : -32768 ≤ lo)
    (hhi16 : hi < 32768) : lo ≤ quantize q j ∧ quantize q j ≤ hi := by
  have hround : ∀ n : Nat, ((n : Int) + (q : Int) >>> (1 : Nat)).tdiv q
      = ((n + q / 2) / q : Nat) := by
    intro n
    rw [Int.shiftRight_eq_div_pow]
    exact_mod_cast Int.ofNat_tdiv (n + q / 2) q
  rw [quantize]
  split
  next hneg =>
    obtain ⟨n, hn⟩ := Int.eq_ofNat_of_zero_le (show 0 ≤ -j by omega)
    have hle := div_rounded_le (j := n) hq
    dsimp only
    rw [hn]
    split
    · omega
    · rw [hround]
      generalize (n + q / 2) / q = k at hle ⊢
      rw [toInt16_eq (by omega) (by omega)]
      omega
  next hpos =>
    obtain ⟨n, rfl⟩ := Int.eq_ofNat_of_zero_le (show 0 ≤ j by omega)
    have hle := div_rounded_le (j := n) hq
    dsimp only
    split
    · omega
    · rw [hround]
      generalize (n + q / 2) / q = k at hle ⊢
      rw [toInt16_eq (by omega) (by omega)]
      omega

/-- How far from zero a quantized value is. -/
theorem natAbs_quantize {q : Nat} (hq : 0 < q) {j : Int} (hj : j.natAbs < 32768) :
    (quantize q j).natAbs = (j.natAbs + q / 2) / q := by
  have hround : ∀ n : Nat, (n : Int) + (q : Int) >>> (1 : Nat) = (n + q / 2 : Nat) := by
    intro n
    rw [Int.shiftRight_eq_div_pow]
    rfl
  have hsmall : ∀ n : Nat, n < q → n / q = 0 := fun n h => Nat.div_eq_of_lt h
  have hle := div_rounded_le (j := j.natAbs) hq
  rw [quantize]
  split
  next hneg =>
    obtain ⟨n, hn⟩ := Int.eq_ofNat_of_zero_le (show 0 ≤ -j by omega)
    obtain rfl : n = j.natAbs := by omega
    dsimp only
    rw [hn, hround]
    split
    next hlt => exact (hsmall _ (by exact_mod_cast hlt)).symm
    next =>
      rw [← Int.ofNat_tdiv]
      generalize (j.natAbs + q / 2) / q = k at hle ⊢
      rw [toInt16_eq (by omega) (by omega)]
      omega
  next hpos =>
    obtain ⟨n, rfl⟩ := Int.eq_ofNat_of_zero_le (show 0 ≤ j by omega)
    rw [Int.natAbs_natCast] at hle hj ⊢
    dsimp only
    rw [hround]
    split
    next hlt => exact (hsmall _ (by exact_mod_cast hlt)).symm
    next =>
      rw [← Int.ofNat_tdiv]
      generalize (n + q / 2) / q = k at hle ⊢
      rw [toInt16_eq (by omega) (by omega), Int.natAbs_natCast]

/-- So with its quantizer it comes back to the value, up to half a
quantizer. -/
theorem quantize_mul_le {q : Nat} (hq : 0 < q) {j : Int} (hj : j.natAbs < 32768) :
    (quantize q j * q).natAbs ≤ j.natAbs + q / 2 := by
  rw [Int.natAbs_mul, natAbs_quantize hq hj, Int.natAbs_natCast]
  exact Nat.div_mul_le_self _ q

/-- Only the first coefficient is the DC. -/
theorem zig_eq_zero : ∀ n < 64, zig.getD n 0 = 0 → n = 0 := by decide

/-- What the encoder makes of any block of samples is in the coder's
range. -/
theorem quantized_samples (h : Samples p es) {quant : List Nat}
    (hq : ∀ i < 64, 0 < quant.getD i 0) :
    Quantized (loadQuantizedCoefficients quant (dct2d p)) := by
  have hcoef : ∀ i < 64, -1020 - (if i = 0 then 4 else 0)
        ≤ quantize (quant.getD i 0) ((dct2d p).getD (zig.getD i 0) 0).toInt
      ∧ quantize (quant.getD i 0) ((dct2d p).getD (zig.getD i 0) 0).toInt
        ≤ 1020 := by
    intro i hi
    obtain ⟨his, hlo, hhi⟩ := dct2d_exact h (zig_lt i hi)
    rw [his]
    by_cases h0 : i = 0
    · subst h0
      exact quantize_between (hq 0 hi) hlo hhi (by decide) (by decide)
        (by decide) (by decide)
    · have hz : zig.getD i 0 ≠ 0 := fun hz => h0 (zig_eq_zero i hi hz)
      rw [if_neg hz] at hlo
      rw [if_neg h0]
      exact quantize_between (hq i hi) hlo hhi (by decide) (by decide)
        (by decide) (by decide)
  generalize dct2d p = d at hcoef ⊢
  refine ⟨?_, ?_, ?_⟩
  · rw [loadQuantizedCoefficients, List.length_map, List.length_range]
  · have h0 := hcoef 0 (by omega)
    rw [if_pos rfl] at h0
    rw [loadQuantizedCoefficients, List.range_succ_eq_map, List.map_cons,
      List.headD_cons]
    exact h0
  · intro c hc
    rw [loadQuantizedCoefficients, List.range_succ_eq_map, List.map_cons,
      List.tail_cons, List.map_map] at hc
    obtain ⟨i, hi, rfl⟩ := List.mem_map.mp hc
    have := hcoef (i + 1) (by have := List.mem_range.mp hi; omega)
    rw [if_neg (Nat.succ_ne_zero i)] at this
    unfold InRange
    show (quantize (quant.getD (i + 1) 0)
      (d.getD (zig.getD (i + 1) 0) 0).toInt).natAbs < 2 ^ 10
    omega

/-- So the products that restore the block are small. -/
theorem quantized_mul_le (h : Samples p es) {quant : List Nat}
    (hq : ∀ i < 64, 0 < quant.getD i 0 ∧ quant.getD i 0 < 256) {n : Nat}
    (hn : n < 64) :
    ((loadQuantizedCoefficients quant (dct2d p)).getD n 0
      * (quant.getD n 0 : Int)).natAbs ≤ 1151 := by
  obtain ⟨his, hlo, hhi⟩ := dct2d_exact h (zig_lt n hn)
  rw [loadQuantizedCoefficients, getD_map_range hn]
  have hj : ((Jpeg.dct2d p).getD (zig.getD n 0) 0).toInt.natAbs ≤ 1024 := by
    rw [his]
    split at hlo <;> omega
  have hmul := quantize_mul_le (hq n hn).1
    (j := ((Jpeg.dct2d p).getD (zig.getD n 0) 0).toInt) (by omega)
  have hlt := (hq n hn).2
  omega

-- ====================================================== the quantizers

/-- A table for a quality of the encoder. -/
theorem computeQuantTable_valid (quality : Nat) {src : List Nat}
    (hlen : src.length = 64) :
    (computeQuantTable quality src).length = 64
      ∧ ∀ x ∈ computeQuantTable quality src, 0 < x ∧ x < 256 := by
  refine ⟨by rw [computeQuantTable, List.length_map, hlen], ?_⟩
  intro x hx
  obtain ⟨j, -, rfl⟩ := List.mem_map.mp hx
  omega

end SitNChow.Jpeg
