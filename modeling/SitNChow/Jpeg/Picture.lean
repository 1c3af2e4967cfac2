/-
The picture that the encoder is fed, and the blocks of its MCUs. A picture
has a byte for every component in each of its pixels; beyond its right and
its lower edge the pixels of the edge go on.

The encoder takes its blocks from the lines in `m_mcu_lines`. When they
show a row of MCUs of the picture (`Picture.Shows`), these are the blocks
of the picture at that place (`Picture.Shows.blocks`).
-/
import SitNChow.Jpeg.Encoder

namespace SitNChow.Jpeg

/-- A picture, with the subsampling it is encoded with. -/
structure Picture where
  sub : Subsampling
  width : Nat
  height : Nat
  pixel : (x y c : Nat) → UInt8

namespace Picture

/-- The pixels, going on beyond the edges. -/
def spread (p : Picture) (x y c : Nat) : Nat :=
  (p.pixel (min x (p.width - 1)) (min y (p.height - 1)) c).toNat

/-- A block of component `c` at full resolution. -/
def block (p : Picture) (x y c : Nat) : List Int32 :=
  sampleArray fun i j => p.spread (x + j) (y + i) c

/-- A block with half the columns. -/
def halfBlock (p : Picture) (x y c : Nat) : List Int32 :=
  sampleArray fun i j =>
    (p.spread (x + 2 * j) (y + i) c + p.spread (x + 2 * j + 1) (y + i) c) / 2

/-- A block with half the columns and half the lines. Halves are rounded
down and up in turn, like the fields of a chessboard. -/
def quarterBlock (p : Picture) (x y c : Nat) : List Int32 :=
  sampleArray fun i j =>
    (p.spread (x + 2 * j) (y + 2 * i) c
      + p.spread (x + 2 * j + 1) (y + 2 * i) c
      + p.spread (x + 2 * j) (y + 2 * i + 1) c
      + p.spread (x + 2 * j + 1) (y + 2 * i + 1) c
      + 2 * ((i + j) % 2)) / 4

/-- The blocks of the MCU at a place. -/
def blocks (p : Picture) (place : Nat × Nat) : List (Nat × List Int32) :=
  let (x, y) := place
  match p.sub with
  | .yOnly => [(0, p.block x y 0)]
  | .h1v1 => [(0, p.block x y 0), (1, p.block x y 1), (2, p.block x y 2)]
  | .h2v1 =>
      [(0, p.block x y 0), (0, p.block (x + 8) y 0),
        (1, p.halfBlock x y 1), (2, p.halfBlock x y 2)]
  | .h2v2 =>
      [(0, p.block x y 0), (0, p.block (x + 8) y 0),
        (0, p.block x (y + 8) 0), (0, p.block (x + 8) (y + 8) 0),
        (1, p.quarterBlock x y 1), (2, p.quarterBlock x y 2)]

/-- The first `n` lines show the picture from line `y` on, filled up to
the end of the last MCU. -/
def Shows (p : Picture) (y n : Nat) (lines : List (List UInt8)) : Prop :=
  ∀ k < n, ∀ x < imageXMcu p.sub p.width, ∀ c < p.sub.numComponents,
    lineByte lines k (p.sub.numComponents * x + c) = p.spread x (y + k) c

end Picture

-- ================================================= blocks of the lines

/-- A sample array depends on its 64 samples only. -/
theorem sampleArray_congr {f g : Nat → Nat → Nat}
    (h : ∀ i < 8, ∀ j < 8, f i j = g i j) : sampleArray f = sampleArray g := by
  have hrow : ∀ i ∈ List.range 8, (List.range 8).map (fun j => sample (f i j))
      = (List.range 8).map fun j => sample (g i j) := by
    intro i hi
    refine List.map_congr_left fun j hj => ?_
    rw [h i (List.mem_range.mp hi) j (List.mem_range.mp hj)]
  exact List.flatMap_congr hrow

/-- An entry of a sample array. -/
theorem sampleArray_getD (f : Nat → Nat → Nat) {i j : Nat} (hi : i < 8)
    (hj : j < 8) : (sampleArray f).getD (8 * i + j) 0 = sample (f i j) := by
  have hlen : ∀ i, ((List.range 8).map fun j => sample (f i j)).length = 8 :=
    fun _ => by rw [List.length_map, List.length_range]
  rw [sampleArray, getD_flatMap_range hlen hi hj, getD_map_range hj]

/-- A sample is a byte less 128. -/
theorem sample_is {n : Nat} (h : n < 256) : Is (sample n) ((n : Int) - 128) := by
  have hn : Is (Int32.ofNat n) n := Int32.toInt_ofNat_of_lt (by omega)
  have h128 : Is (128 : Int32) 128 := rfl
  exact hn.sub h128 (by omega) (by omega)

/-- A block of bytes is one the transform is exact on. -/
theorem samples_sampleArray {f : Nat → Nat → Nat}
    (hf : ∀ i < 8, ∀ j < 8, f i j < 256) :
    Samples (sampleArray f) ((sampleArray f).map Int32.toInt) := by
  have hget : ∀ k, ((sampleArray f).map Int32.toInt).getD k 0
      = ((sampleArray f).getD k 0).toInt :=
    fun k => List.getD_map (sampleArray f) (0 : Int32) Int32.toInt
  have hent : ∀ k < 64, ∃ n < 256, (sampleArray f).getD k 0 = sample n := by
    intro k hk
    refine ⟨f (k / 8) (k % 8), hf _ (by omega) _ (by omega), ?_⟩
    rw [← sampleArray_getD f (i := k / 8) (j := k % 8) (by omega) (by omega)]
    congr 1
    omega
  refine ⟨fun k _ => (hget k).symm, ?_⟩
  intro k hk
  obtain ⟨n, hn, he⟩ := hent k hk
  rw [hget, he, sample_is hn]
  omega

variable {p : Picture} {y : Nat} {lines : List (List UInt8)}

/-- A sample of the spread picture is a byte. -/
theorem Picture.spread_lt (p : Picture) (x y c : Nat) : p.spread x y c < 256 :=
  UInt8.toNat_lt _

/-- The samples of every block of a picture are bytes, less 128. -/
theorem Picture.samples_blocks (p : Picture) (place : Nat × Nat) :
    ∀ b ∈ p.blocks place, Samples b.2 (b.2.map Int32.toInt) := by
  have hfull : ∀ x y c, Samples (p.block x y c)
      ((p.block x y c).map Int32.toInt) := fun x y c =>
    samples_sampleArray fun i _ j _ => p.spread_lt _ _ _
  have hhalf : ∀ x y c, Samples (p.halfBlock x y c)
      ((p.halfBlock x y c).map Int32.toInt) := fun x y c =>
    samples_sampleArray fun i _ j _ => by
      have h1 := p.spread_lt (x + 2 * j) (y + i) c
      have h2 := p.spread_lt (x + 2 * j + 1) (y + i) c
      omega
  have hquarter : ∀ x y c, Samples (p.quarterBlock x y c)
      ((p.quarterBlock x y c).map Int32.toInt) :=
    fun x y c => samples_sampleArray fun i _ j _ => by
      have h1 := p.spread_lt (x + 2 * j) (y + 2 * i) c
      have h2 := p.spread_lt (x + 2 * j + 1) (y + 2 * i) c
      have h3 := p.spread_lt (x + 2 * j) (y + 2 * i + 1) c
      have h4 := p.spread_lt (x + 2 * j + 1) (y + 2 * i + 1) c
      omega
  obtain ⟨x, y⟩ := place
  intro b hb
  unfold blocks at hb
  dsimp only at hb
  split at hb <;> simp only [List.mem_cons, List.not_mem_nil, or_false] at hb
  next =>
    subst hb
    exact hfull x y 0
  next =>
    obtain rfl | rfl | rfl := hb
    · exact hfull x y 0
    · exact hfull x y 1
    · exact hfull x y 2
  next =>
    obtain rfl | rfl | rfl | rfl := hb
    · exact hfull x y 0
    · exact hfull (x + 8) y 0
    · exact hhalf x y 1
    · exact hhalf x y 2
  next =>
    obtain rfl | rfl | rfl | rfl | rfl | rfl := hb
    · exact hfull x y 0
    · exact hfull (x + 8) y 0
    · exact hfull x (y + 8) 0
    · exact hfull (x + 8) (y + 8) 0
    · exact hquarter x y 1
    · exact hquarter x y 2

-- ------------------------------------------- the lines show the picture

/-- The MCUs of a row lie within the lines. -/
theorem mcu_le_line {sub : Subsampling} {w i k : Nat}
    (hi : i < mcusPerRow sub w) (hk : k < sub.mcuX) :
    i * sub.mcuX + k < imageXMcu sub w := by
  have hpos : 0 < sub.mcuX := by
    cases sub <;> decide
  have hrow : mcusPerRow sub w * sub.mcuX = imageXMcu sub w := by
    rw [mcusPerRow, imageXMcu, Nat.mul_div_cancel _ hpos]
  calc i * sub.mcuX + k < i * sub.mcuX + sub.mcuX := by omega
    _ = (i + 1) * sub.mcuX := (Nat.succ_mul _ _).symm
    _ ≤ mcusPerRow sub w * sub.mcuX := Nat.mul_le_mul_right _ hi
    _ = imageXMcu sub w := hrow

/-- A byte that a block is loaded from. -/
theorem Picture.Shows.byte (h : p.Shows y p.sub.mcuY lines) {i k x z c : Nat}
    (hi : i < mcusPerRow p.sub p.width) (hx : x < p.sub.mcuX)
    (hk : k < p.sub.mcuY) (hc : c < p.sub.numComponents)
    (hz : z = p.sub.numComponents * (i * p.sub.mcuX + x) + c) :
    lineByte lines k z = p.spread (i * p.sub.mcuX + x) (y + k) c := by
  rw [hz]
  exact h k hk _ (mcu_le_line hi hx) c hc

/-- `load_block_8_8` loads the block of the picture it stands for. -/
theorem Picture.Shows.block88 (h : p.Shows y p.sub.mcuY lines)
    (h3 : p.sub.numComponents = 3) {i bx v c : Nat}
    (hi : i < mcusPerRow p.sub p.width) (hbx : bx < p.sub.hSamp)
    (hv : v < p.sub.vSamp) (hc : c < 3) :
    loadBlock88 lines (i * p.sub.hSamp + bx) v c
      = p.block (i * p.sub.mcuX + 8 * bx) (y + 8 * v) c := by
  refine sampleArray_congr fun k hk j hj => ?_
  have hx : 8 * bx + j < p.sub.mcuX := by
    rw [Subsampling.mcuX]
    omega
  have hy : 8 * v + k < p.sub.mcuY := by
    rw [Subsampling.mcuY]
    omega
  have hz : (i * p.sub.hSamp + bx) * (8 * 3) + c + j * 3
      = p.sub.numComponents * (i * p.sub.mcuX + (8 * bx + j)) + c := by
    have hassoc : i * (p.sub.hSamp * 8) = i * p.sub.hSamp * 8 :=
      (Nat.mul_assoc _ _ _).symm
    rw [h3, Subsampling.mcuX, hassoc]
    omega
  have hline : v <<< 3 + k = 8 * v + k := by
    rw [Nat.shiftLeft_eq]
    omega
  have hc' : c < p.sub.numComponents := by omega
  have := h.byte hi hx hy hc' hz
  rwa [← Nat.add_assoc, ← Nat.add_assoc, ← hline] at this

/-- `load_block_16_8_8` loads a block at half the width. -/
theorem Picture.Shows.block1688 (h : p.Shows y p.sub.mcuY lines)
    (hsub : p.sub = .h2v1) {i c : Nat}
    (hi : i < mcusPerRow p.sub p.width) (hc : c < 3) :
    loadBlock1688 lines i c = p.halfBlock (i * 16) y c := by
  have hbyte := @Picture.Shows.byte p y lines h i
  rw [hsub] at hbyte hi
  refine sampleArray_congr fun k hk j hj => ?_
  have h0 := hbyte (k := k) (x := 2 * j) (z := i * (16 * 3) + c + 2 * j * 3) hi
    (show 2 * j < 16 by omega) hk hc (show _ = 3 * (i * 16 + 2 * j) + c by omega)
  have h1 := hbyte (k := k) (x := 2 * j + 1)
    (z := i * (16 * 3) + c + (2 * j + 1) * 3) hi
    (show 2 * j + 1 < 16 by omega) hk hc
    (show _ = 3 * (i * 16 + (2 * j + 1)) + c by omega)
  rw [h0, h1, Nat.shiftRight_eq_div_pow]
  rfl

/-- `load_block_16_8` loads a block at half the width and height. -/
theorem Picture.Shows.block168 (h : p.Shows y p.sub.mcuY lines)
    (hsub : p.sub = .h2v2) {i c : Nat}
    (hi : i < mcusPerRow p.sub p.width) (hc : c < 3) :
    loadBlock168 lines i c = p.quarterBlock (i * 16) y c := by
  have hbyte := @Picture.Shows.byte p y lines h i
  rw [hsub] at hbyte hi
  refine sampleArray_congr fun k hk j hj => ?_
  have hpixel : ∀ l < 16, ∀ x < 16,
      lineByte lines l (i * (16 * 3) + c + x * 3)
        = p.spread (i * 16 + x) (y + l) c :=
    fun l hl x hx => hbyte hi hx hl hc
      (show _ = 3 * (i * 16 + x) + c by omega)
  have hdither : (if j % 2 = 0 then if k % 2 = 0 then 0 else 2
      else if k % 2 = 0 then 2 else 0) = 2 * ((k + j) % 2) := by
    split <;> split <;> omega
  dsimp only
  rw [hpixel (2 * k) (by omega) (2 * j) (by omega),
    hpixel (2 * k) (by omega) (2 * j + 1) (by omega),
    hpixel (2 * k + 1) (by omega) (2 * j) (by omega),
    hpixel (2 * k + 1) (by omega) (2 * j + 1) (by omega), hdither,
    Nat.shiftRight_eq_div_pow]
  rfl

/-- The blocks loaded from the lines are the picture's. -/
theorem Picture.Shows.blocks (h : p.Shows y p.sub.mcuY lines) {i : Nat}
    (hi : i < mcusPerRow p.sub p.width) :
    mcuBlocks p.sub lines i = p.blocks (i * p.sub.mcuX, y) := by
  have hfull : p.sub.numComponents = 3 → ∀ bx < p.sub.hSamp,
      ∀ v < p.sub.vSamp, ∀ c < 3,
      loadBlock88 lines (i * p.sub.hSamp + bx) v c
        = p.block (i * p.sub.mcuX + 8 * bx) (y + 8 * v) c :=
    fun h3 bx hbx v hv c hc => h.block88 h3 hi hbx hv hc
  have hhalf := @Picture.Shows.block1688 p y lines h
  have hquarter := @Picture.Shows.block168 p y lines h
  have hbyte := @Picture.Shows.byte p y lines h i
  unfold mcuBlocks Picture.blocks
  cases hsub : p.sub with
  | yOnly =>
      rw [hsub] at hbyte hi
      have hgrey : loadBlock88Grey lines i = p.block (i * 8) y 0 :=
        sampleArray_congr fun k hk j hj =>
          hbyte hi hj hk (by decide) (by
            show i <<< 3 + j = 1 * (i * 8 + j) + 0
            rw [Nat.shiftLeft_eq]
            omega)
      show [(0, loadBlock88Grey lines i)] = _
      rw [hgrey]
      rfl
  | h1v1 =>
      rw [hsub] at hfull
      have hb := hfull rfl 0 (by decide) 0 (by decide)
      have hi1 : i * Subsampling.hSamp .h1v1 + 0 = i := Nat.mul_one i
      rw [hi1] at hb
      dsimp only
      rw [hb 0 (by decide), hb 1 (by decide), hb 2 (by decide)]
      rfl
  | h2v1 =>
      rw [hsub] at hfull
      have hb := hfull rfl
      have hhalf := fun c hc => hhalf hsub (i := i) (c := c) hi hc
      show [(0, loadBlock88 lines (i * Subsampling.hSamp .h2v1 + 0) 0 0),
        (0, loadBlock88 lines (i * Subsampling.hSamp .h2v1 + 1) 0 0), _, _] = _
      rw [hb 0 (by decide) 0 (by decide) 0 (by decide),
        hb 1 (by decide) 0 (by decide) 0 (by decide), hhalf 1 (by decide),
        hhalf 2 (by decide)]
      rfl
  | h2v2 =>
      rw [hsub] at hfull
      have hb := hfull rfl
      have hquarter := fun c hc => hquarter hsub (i := i) (c := c) hi hc
      show [(0, loadBlock88 lines (i * Subsampling.hSamp .h2v2 + 0) 0 0),
        (0, loadBlock88 lines (i * Subsampling.hSamp .h2v2 + 1) 0 0),
        (0, loadBlock88 lines (i * Subsampling.hSamp .h2v2 + 0) 1 0),
        (0, loadBlock88 lines (i * Subsampling.hSamp .h2v2 + 1) 1 0), _, _] = _
      rw [hb 0 (by decide) 0 (by decide) 0 (by decide),
        hb 1 (by decide) 0 (by decide) 0 (by decide),
        hb 0 (by decide) 1 (by decide) 0 (by decide),
        hb 1 (by decide) 1 (by decide) 0 (by decide), hquarter 1 (by decide),
        hquarter 2 (by decide)]
      rfl

end SitNChow.Jpeg
