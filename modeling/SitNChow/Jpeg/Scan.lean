/-
The encoder over a whole image: fed the lines of a picture one after
another, it codes the blocks of the picture's MCUs, row by row.

`Encoded` says which blocks have been coded. `Fed` is the invariant of the
lines: `r` rows of MCUs are coded, and of the next one `k` lines wait in
`m_mcu_lines`. A line that makes the row complete has it coded
(`Fed.line`); at the end of the image the last line stands for those that
are missing (`Fed.endOfImage`).
-/
import SitNChow.Jpeg.Accept
import SitNChow.Jpeg.Picture

namespace SitNChow.Jpeg

open Kit Kit.Bits

variable {room : Nat} {hd : List UInt8} {q : Setting}
  {bs : List (Nat × List Int)} {c : BlockCoder} {p : Picture}

-- ============================================================ blocks

/-- The coefficients of the blocks of the MCU at a place. -/
def Picture.coefficients (p : Picture) (q : Setting) (place : Nat × Nat) :
    List (Nat × List Int) :=
  (p.blocks place).map fun b =>
    (b.1, loadQuantizedCoefficients (q.quantOf b.1) (dct2d b.2))

/-- The blocks `bs` have been coded, behind the bytes `hd`. -/
structure Encoded (room : Nat) (hd : List UInt8) (q : Setting)
    (bs : List (Nat × List Int)) (c : BlockCoder) : Prop where
  coded : Coded room hd (scanBits q.tables (fun _ => 0) bs) c.writer
  last : c.lastDcVal = lastDcs (fun _ => 0) bs
  range : DcsInRange c.lastDcVal

/-- No quantizer is zero. -/
theorem quantOf_pos (hq : q.Valid) (n : Nat) :
    ∀ i < 64, 0 < (q.quantOf n).getD i 0 := by
  intro i hi
  unfold Setting.quantOf
  split
  · rw [List.getD_eq_getElem _ _ (by rw [hq.quantC.1]; exact hi)]
    exact (hq.quantC.2 _ (List.getElem_mem _)).1
  · rw [List.getD_eq_getElem _ _ (by rw [hq.quant.1]; exact hi)]
    exact (hq.quant.2 _ (List.getElem_mem _)).1

/-- A block of samples is quantized and coded. -/
theorem Encoded.block (h : Encoded room hd q bs c) (hq : q.Valid) {n : Nat}
    {samples : List Int32} (hs : Samples samples (samples.map Int32.toInt)) :
    Encoded room hd q
      (bs ++ [(n, loadQuantizedCoefficients (q.quantOf n) (dct2d samples))])
      (codeBlock q n samples c) := by
  have hquant := quantized_samples hs (quantOf_pos hq n)
  have hlast := h.last
  have hcodable := hquant.codable h.range n
  unfold codeBlock
  generalize loadQuantizedCoefficients (q.quantOf n) (dct2d samples) = cs at *
  have hdc : (if n = 0 then q.dc else q.dcC) = (q.tables n).dc := by
    unfold Setting.tables
    split <;> rfl
  have hac : (if n = 0 then q.ac else q.acC) = (q.tables n).ac := by
    unfold Setting.tables
    split <;> rfl
  have hset : setDc c.lastDcVal n (cs.headD 0)
      = lastDcs (fun _ => 0) (bs ++ [(n, cs)]) := by
    rw [lastDcs, List.foldl_append, hlast]
    rfl
  refine ⟨?_, hset, hquant.setDc h.range n⟩
  have hcoded := h.coded.block (hq.codesDc n) (hq.codesAc n) hcodable.diff
    hcodable.ac
  rw [scanBits_append, ← hlast, scanBits, scanBits, List.append_nil]
  dsimp only
  rw [hdc, hac]
  exact hcoded

/-- And so are several in turn. -/
theorem Encoded.blocks (h : Encoded room hd q bs c) (hq : q.Valid)
    (xs : List (Nat × List Int32))
    (hxs : ∀ b ∈ xs, Samples b.2 (b.2.map Int32.toInt)) :
    Encoded room hd q
      (bs ++ xs.map fun b =>
        (b.1, loadQuantizedCoefficients (q.quantOf b.1) (dct2d b.2)))
      (codeBlocks q xs c) := by
  induction xs generalizing bs c with
  | nil =>
      rw [List.map_nil, List.append_nil]
      exact h
  | cons b xs ih =>
      have hb := h.block hq (n := b.1) (hxs b List.mem_cons_self)
      have hrest := ih hb fun x hx => hxs x (List.mem_cons_of_mem b hx)
      rw [List.map_cons, List.append_cons, codeBlocks, List.foldl_cons]
      exact hrest

/-- The coefficients of a row of MCUs. -/
def Picture.rowCoefficients (p : Picture) (q : Setting) (y : Nat) :
    List (Nat × List Int) :=
  (List.range (mcusPerRow p.sub p.width)).flatMap fun x =>
    p.coefficients q (x * p.sub.mcuX, y)

/-- `process_mcu_row` codes the row that the lines show. -/
theorem Encoded.row {e : JpegEncoder} {y : Nat}
    (h : Encoded room hd q bs e.toBlockCoder) (hq : q.Valid)
    (hsub : e.sub = p.sub) (hx : e.imageX = p.width)
    (hshows : p.Shows y p.sub.mcuY e.mcuLines) :
    Encoded room hd q (bs ++ p.rowCoefficients q y)
      (processMcuRow q e).toBlockCoder := by
  unfold processMcuRow Picture.rowCoefficients
  dsimp only
  rw [hsub, hx]
  have hmcus : ∀ is : List Nat, (∀ i ∈ is, i < mcusPerRow p.sub p.width) →
      ∀ bs c, Encoded room hd q bs c →
      Encoded room hd q
        (bs ++ is.flatMap fun x => p.coefficients q (x * p.sub.mcuX, y))
        (is.foldl (fun c i => codeBlocks q (mcuBlocks p.sub e.mcuLines i) c)
          c) := by
    intro is
    induction is with
    | nil =>
        intro _ bs c hc
        rw [List.flatMap_nil, List.append_nil]
        exact hc
    | cons i is ih =>
        intro his bs c hc
        rw [List.flatMap_cons, ← List.append_assoc, List.foldl_cons,
          hshows.blocks (his i List.mem_cons_self)]
        exact ih (fun j hj => his j (List.mem_cons_of_mem i hj)) _ _
          (hc.blocks hq _ (p.samples_blocks _))
  exact hmcus _ (fun i hi => List.mem_range.mp hi) _ _ h

-- ============================================================= the lines

/-- The bytes are the pixels of a line of the picture. -/
structure Picture.LineIs (p : Picture) (y : Nat) (dst : List UInt8) : Prop where
  length : dst.length = p.sub.numComponents * p.width
  pixel : ∀ x < p.width, ∀ c < p.sub.numComponents,
    dst.getD (p.sub.numComponents * x + c) 0 = p.pixel x y c

/-- A picture is grey, or has three components. -/
theorem numComponents_cases (sub : Subsampling) :
    sub.numComponents = 1 ∨ sub.numComponents = 3 := by
  cases sub
  · exact .inl rfl
  · exact .inr rfl
  · exact .inr rfl
  · exact .inr rfl

/-- The line is filled up with its last pixel. -/
theorem Picture.LineIs.filled {dst : List UInt8} {x y c : Nat}
    (h : p.LineIs y dst) (hw : 0 < p.width) (hx : x < imageXMcu p.sub p.width)
    (hc : c < p.sub.numComponents) :
    (filledLine p.sub p.width dst).getD (p.sub.numComponents * x + c) 0
      = p.pixel (min x (p.width - 1)) y c := by
  have hlen := h.length
  rw [filledLine]
  by_cases hin : x < p.width
  · have hlt : p.sub.numComponents * x + c < dst.length := by
      rw [hlen]
      calc p.sub.numComponents * x + c
          < p.sub.numComponents * x + p.sub.numComponents := by omega
        _ = p.sub.numComponents * (x + 1) := (Nat.mul_succ _ _).symm
        _ ≤ _ := Nat.mul_le_mul_left _ hin
    rw [List.getD_append _ _ _ _ hlt, h.pixel x hin c hc,
      Nat.min_eq_left (by omega)]
  · have hpos : p.sub.numComponents * x + c
        = dst.length + (p.sub.numComponents * (x - p.width) + c) := by
      rw [hlen, ← Nat.add_assoc, ← Nat.mul_add]
      congr 2
      omega
    have hlast : p.width * p.sub.numComponents - p.sub.numComponents + c
        = p.sub.numComponents * (p.width - 1) + c := by
      rw [Nat.mul_sub, Nat.mul_one, Nat.mul_comm]
    rw [hpos, List.getD_append_right _ _ _ _ (by omega),
      Nat.add_sub_cancel_left,
      getD_flatMap_range (fun _ => by rw [List.length_map, List.length_range])
        (by omega) hc, getD_map_range hc, hlast,
      h.pixel _ (by omega) c hc, Nat.min_eq_right (by omega)]

/-- Of the picture's lines, `r` rows of MCUs are coded, and the next `k`
lines are in `m_mcu_lines`. -/
structure Fed (room : Nat) (hd : List UInt8) (q : Setting) (p : Picture)
    (r k : Nat) (e : JpegEncoder) : Prop where
  sub : e.sub = p.sub
  imageX : e.imageX = p.width
  passNum : e.passNum = 2
  lines : e.mcuLines.length = p.sub.mcuY
  ofs : e.mcuYOfs = k
  shows : p.Shows (r * p.sub.mcuY) k e.mcuLines
  encoded : Encoded room hd q
    ((List.range r).flatMap fun y => p.rowCoefficients q (y * p.sub.mcuY))
    e.toBlockCoder

variable {r k : Nat} {e : JpegEncoder}

/-- Nothing has failed where the bits are written. -/
theorem Coded.succeeded {bits : List Bool} {w : Writer}
    (h : Coded room hd bits w) : w.succeeded = true := by
  obtain ⟨pending, -, hw⟩ := h
  obtain ⟨bytes, hem, -⟩ := hw.bytes
  exact hem.succeeded

/-- A line that is replaced is read, the others as before. -/
theorem lineByte_set {lines : List (List UInt8)} {line : List UInt8}
    {j x : Nat} (hk : k < lines.length) :
    lineByte (lines.set k line) j x
      = if j = k then (line.getD x 0).toNat else lineByte lines j x := by
  have hset : (lines.set k line).getD j []
      = if j = k then line else lines.getD j [] := by
    rw [List.getD_eq_getElem?_getD, List.getElem?_set]
    split
    next h => rw [if_pos h.symm, Option.getD_some]
    next h => rw [if_neg (Ne.symm h), ← List.getD_eq_getElem?_getD]
  rw [lineByte, lineByte, hset]
  split <;> rfl

/-- A new line shows the next line of the picture. -/
theorem Picture.Shows.set {y : Nat} {lines : List (List UInt8)}
    {dst : List UInt8} (h : p.Shows y k lines) (hk : k < lines.length)
    (hline : p.LineIs (y + k) dst) (hw : 0 < p.width) (hy : y + k < p.height) :
    p.Shows y (k + 1) (lines.set k (filledLine p.sub p.width dst)) := by
  intro j hj x hx c hc
  rw [lineByte_set hk]
  split
  next he =>
    rw [hline.filled hw hx hc, he, Picture.spread,
      Nat.min_eq_left (show y + k ≤ p.height - 1 by omega)]
  next he => exact h j (by omega) x hx c hc

/-- The encoder with a new line, before a row of MCUs is coded. -/
def withLine (p : Picture) (src : List UInt8) (e : JpegEncoder) : JpegEncoder :=
  { e with
    mcuLines := e.mcuLines.set e.mcuYOfs (filledLine p.sub p.width
      (translated p.sub p.width e.imageBpp src))
    mcuYOfs := e.mcuYOfs + 1 }

/-- `load_mcu` codes a row of MCUs with its last line. -/
theorem Fed.loadMcu_eq (h : Fed room hd q p r k e) (src : List UInt8) :
    loadMcu q src e
      = if k + 1 = p.sub.mcuY
        then { processMcuRow q (withLine p src e) with mcuYOfs := 0 }
        else withLine p src e := by
  have hsub : e.params.subsampling = p.sub := h.sub
  simp only [loadMcu, withLine, JpegEncoder.sub, hsub, h.imageX, h.ofs]

/-- A row of MCUs is coded when its last line comes. -/
theorem Fed.line {src : List UInt8} (h : Fed room hd q p r k e) (hq : q.Valid)
    (hk : k < p.sub.mcuY) (hw : 0 < p.width) (hy : r * p.sub.mcuY + k < p.height)
    (hline : p.LineIs (r * p.sub.mcuY + k)
      (translated p.sub p.width e.imageBpp src)) :
    (loadMcu q src e).imageBpp = e.imageBpp
      ∧ if k + 1 = p.sub.mcuY then Fed room hd q p (r + 1) 0 (loadMcu q src e)
        else Fed room hd q p r (k + 1) (loadMcu q src e) := by
  have hshows : p.Shows (r * p.sub.mcuY) (k + 1) (withLine p src e).mcuLines := by
    have := h.shows.set (h.lines ▸ hk) hline hw hy
    rw [withLine, h.ofs]
    exact this
  have hlines : (withLine p src e).mcuLines.length = p.sub.mcuY := by
    rw [withLine, List.length_set]
    exact h.lines
  rw [h.loadMcu_eq]
  split
  next hfull =>
    rw [hfull] at hshows
    have hrow := h.encoded.row (e := withLine p src e) hq h.sub h.imageX hshows
    refine ⟨rfl, h.sub, h.imageX, h.passNum, hlines, rfl, ?_, ?_⟩
    · intro j hj
      exact absurd hj (Nat.not_lt_zero j)
    · rw [List.range_succ, List.flatMap_append, List.flatMap_singleton]
      exact hrow
  next hfull =>
    refine ⟨rfl, h.sub, h.imageX, h.passNum, hlines, ?_, hshows, h.encoded⟩
    rw [withLine, h.ofs]

-- ====================================================== the whole image

/-- The coefficients of all MCUs of a picture, in their order. -/
def Picture.mcus (p : Picture) (q : Setting) : List (List (Nat × List Int)) :=
  (mcuPlaces p.width p.height p.sub.mcuX p.sub.mcuY).map (p.coefficients q)

/-- The blocks of a picture, row by row. -/
theorem Picture.mcus_rows (p : Picture) (q : Setting) :
    (p.mcus q).flatten = (List.range
      ((p.height + p.sub.mcuY - 1) / p.sub.mcuY)).flatMap fun y =>
        p.rowCoefficients q (y * p.sub.mcuY) := by
  have hpos : 0 < p.sub.mcuX := by
    cases p.sub <;> decide
  have hrow : (p.width + p.sub.mcuX - 1) / p.sub.mcuX
      = mcusPerRow p.sub p.width := by
    rw [mcusPerRow, imageXMcu, Nat.mul_div_cancel _ hpos]
  rw [mcus, mcuPlaces, hrow, ← List.flatMap_def, List.flatMap_assoc]
  simp only [List.flatMap_map]
  rfl

/-- The coefficients of any picture can be coded. -/
theorem Picture.quantized_mcus (p : Picture) (hq : q.Valid) :
    ∀ b ∈ (p.mcus q).flatten, Quantized b.2 := by
  intro b hb
  obtain ⟨m, hm, hbm⟩ := List.mem_flatten.mp hb
  obtain ⟨place, -, rfl⟩ := List.mem_map.mp hm
  obtain ⟨block, hblock, rfl⟩ := List.mem_map.mp hbm
  exact quantized_samples (p.samples_blocks place block hblock)
    (quantOf_pos hq block.1)

/-- Every quantizer is a byte. -/
theorem quantOf_lt (hq : q.Valid) (n : Nat) :
    ∀ i < 64, (q.quantOf n).getD i 0 < 256 := by
  intro i hi
  unfold Setting.quantOf
  split
  · rw [List.getD_eq_getElem _ _ (by rw [hq.quantC.1]; exact hi)]
    exact (hq.quantC.2 _ (List.getElem_mem _)).2
  · rw [List.getD_eq_getElem _ _ (by rw [hq.quant.1]; exact hi)]
    exact (hq.quant.2 _ (List.getElem_mem _)).2

/-- The scale factors of the decoder are bounded. -/
theorem ipsf_le : ∀ i < 64, ipsf.getD i 0 ≤ 15760 := by decide

/-- And the products with which the decoder restores them fit 32 bits. -/
theorem Picture.fit_mcus (p : Picture) (hq : q.Valid) :
    ∀ b ∈ (p.mcus q).flatten, FitProducts (q.tables b.1).dqf b.2 := by
  intro b hb n hn
  obtain ⟨m, hm, hbm⟩ := List.mem_flatten.mp hb
  obtain ⟨place, -, rfl⟩ := List.mem_map.mp hm
  obtain ⟨⟨cmp, samples⟩, hblock, rfl⟩ := List.mem_map.mp hbm
  have hdqf : (q.tables cmp).dqf = quantTable (q.quantOf cmp) := by
    unfold Setting.tables Setting.quantOf
    by_cases h0 : cmp = 0
    · rw [if_pos h0, if_neg (by omega)]
    · rw [if_neg h0, if_pos (by omega)]
  have hmul := quantized_mul_le (p.samples_blocks place _ hblock)
    (fun i hi => ⟨quantOf_pos hq cmp i hi, quantOf_lt hq cmp i hi⟩) hn
  have hipsf := ipsf_le (zig.getD n 0) (zig_lt n hn)
  dsimp only
  rw [hdqf, quantTable_getD _ hn, Int.natCast_mul, ← Int.mul_assoc, Int.natAbs_mul,
    Int.natAbs_natCast]
  calc _ ≤ 1151 * 15760 := Nat.mul_le_mul hmul hipsf
    _ < 2 ^ 31 := by decide

/-- What is left of a row of MCUs at the end of the image is coded with
the last line repeated. -/
theorem Fed.lastRow (h : Fed room hd q p r k e) (hq : q.Valid)
    (hk : k < p.sub.mcuY) (hy : r * p.sub.mcuY + k = p.height) :
    Encoded room hd q (p.mcus q).flatten
      (if e.mcuYOfs ≠ 0 then processMcuRow q (repeatLastLine e)
        else e).toBlockCoder := by
  have hpos : 0 < p.sub.mcuY := by omega
  rw [p.mcus_rows, h.ofs, ← hy]
  split
  next h0 =>
    have hrows : (r * p.sub.mcuY + k + p.sub.mcuY - 1) / p.sub.mcuY = r + 1 := by
      have : r * p.sub.mcuY + k + p.sub.mcuY - 1
          = (k - 1) + p.sub.mcuY * (r + 1) := by
        rw [Nat.mul_succ, Nat.mul_comm p.sub.mcuY]
        omega
      rw [this, Nat.add_mul_div_left _ _ hpos, Nat.div_eq_of_lt (by omega),
        Nat.zero_add]
    have hshows : p.Shows (r * p.sub.mcuY) p.sub.mcuY
        (repeatLastLine e).mcuLines := by
      intro j hj x hx c hc
      rw [repeatLastLine, lineByte, getD_map_range (by rw [h.lines]; exact hj),
        h.ofs]
      split
      next hjk =>
        -- the line is below the last one of the picture
        have hlast := h.shows (k - 1) (by omega) x hx c hc
        rw [lineByte] at hlast
        have hy₁ : min (r * p.sub.mcuY + (k - 1)) (p.height - 1)
            = p.height - 1 := Nat.min_eq_right (by omega)
        have hy₂ : min (r * p.sub.mcuY + j) (p.height - 1) = p.height - 1 :=
          Nat.min_eq_right (by omega)
        rw [hlast, Picture.spread, Picture.spread, hy₁, hy₂]
      next hjk => exact h.shows j (by omega) x hx c hc
    have hrow := h.encoded.row (e := repeatLastLine e) hq h.sub h.imageX hshows
    rw [hrows, List.range_succ, List.flatMap_append, List.flatMap_singleton]
    exact hrow
  next h0 =>
    have h0 : k = 0 := by omega
    have hrows : (r * p.sub.mcuY + k + p.sub.mcuY - 1) / p.sub.mcuY = r := by
      have : r * p.sub.mcuY + k + p.sub.mcuY - 1
          = (p.sub.mcuY - 1) + p.sub.mcuY * r := by
        rw [Nat.mul_comm p.sub.mcuY]
        omega
      rw [this, Nat.add_mul_div_left _ _ hpos, Nat.div_eq_of_lt (by omega),
        Nat.zero_add]
    rw [hrows]
    exact h.encoded

/-- A file of the encoder: the header, the coded data of all MCUs, and
the end marker. -/
def IsFile (p : Picture) (q : Setting) (file : List UInt8) : Prop :=
  ∃ bytes, FilledUp (scanBits q.tables (fun _ => 0) (p.mcus q).flatten) bytes
    ∧ file = headerBytes p.sub p.width p.height q ++ stuff bytes ++ [0xFF, 0xD9]

/-- The end of the image: the whole file has been written. -/
theorem Fed.endOfImage
    (h : Fed room (headerBytes p.sub p.width p.height q) q p r k e)
    (hq : q.Valid) (hk : k < p.sub.mcuY)
    (hy : r * p.sub.mcuY + k = p.height) :
    ∃ file, IsFile p q file ∧ (processScanline q none e).1 = true
      ∧ (processScanline q none e).2.writer.stream.outBuf = file.take room := by
  obtain ⟨bytes, hfilled, hem⟩ := (h.lastRow hq hk hy).coded.filled
  obtain ⟨hsucc, hout⟩ := (hem.marker 0xD9).flushed
  have hrun : processScanline q none e
      = ((processEndOfImage q e).writer.succeeded, processEndOfImage q e) := by
    have hpass := h.passNum
    rw [processScanline, if_neg (by omega), if_pos h.encoded.coded.succeeded]
  refine ⟨_, ⟨bytes, hfilled, rfl⟩, ?_, ?_⟩
  · rw [hrun, processEndOfImage]
    dsimp only
    rw [if_pos hsucc]
    rfl
  · rw [hrun, processEndOfImage]
    dsimp only
    rw [if_pos hsucc]
    exact hout

/-- A line of the image is taken. -/
theorem Fed.scanline {src : List UInt8} (h : Fed room hd q p r k e)
    (hq : q.Valid) (hk : k < p.sub.mcuY) (hw : 0 < p.width)
    (hy : r * p.sub.mcuY + k < p.height)
    (hline : p.LineIs (r * p.sub.mcuY + k)
      (translated p.sub p.width e.imageBpp src)) :
    processScanline q (some src) e = (true, loadMcu q src e) := by
  have hpass := h.passNum
  have hsucc : (loadMcu q src e).writer.succeeded = true := by
    have hnext := (h.line hq hk hw hy hline).2
    split at hnext
    next => exact hnext.encoded.coded.succeeded
    next => exact hnext.encoded.coded.succeeded
  rw [processScanline, if_neg (by omega), if_pos h.encoded.coded.succeeded]
  dsimp only
  rw [hsucc]

/-- All lines of the image are taken. -/
theorem Fed.scanLines {src : List UInt8} {format : PixFormat}
    {line : Nat → List UInt8} (hq : q.Valid) (hw : 0 < p.width)
    (hline : ∀ i < p.height, p.LineIs i
      (translated p.sub p.width e.imageBpp (line i)))
    (hconv : ∀ i j, convertLineFormat src format (line i) p.width j = line j)
    (n : Nat) {l : List UInt8}
    (hl : ∀ j, convertLineFormat src format l p.width j = line j)
    (h : Fed room hd q p r k e) (hk : k < p.sub.mcuY)
    (hn : r * p.sub.mcuY + k + n = p.height) :
    ∃ e' r' k', scanLines q src format p.width
        (List.range' (r * p.sub.mcuY + k) n) l e = some e'
      ∧ Fed room hd q p r' k' e' ∧ k' < p.sub.mcuY
      ∧ r' * p.sub.mcuY + k' = p.height := by
  induction n generalizing e r k l with
  | zero => exact ⟨e, r, k, rfl, h, hk, hn⟩
  | succ n ih =>
      have hlt : r * p.sub.mcuY + k < p.height := by omega
      have hthis := hline _ hlt
      have hscan := h.scanline hq hk hw hlt hthis
      obtain ⟨hbpp, hnext⟩ := h.line hq hk hw hlt hthis
      rw [List.range'_succ, Jpeg.scanLines, hl]
      rw [hscan, if_pos rfl]
      rw [← hbpp] at hline
      split at hnext
      next hfull =>
        have hr : (r + 1) * p.sub.mcuY + 0 = r * p.sub.mcuY + k + 1 := by
          rw [Nat.succ_mul]
          omega
        have := ih hline (hconv (r * p.sub.mcuY + k)) hnext (by omega)
          (by omega)
        rwa [hr] at this
      next hfull =>
        exact ih hline (hconv _) hnext (by omega) (by omega)

end SitNChow.Jpeg
