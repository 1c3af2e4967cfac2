/-
From a frame to a file and back: what `fmt2jpg` makes of a frame, and that
the decoder restores every coefficient of it.

`fmt2jpg` cuts the file off at the end of its buffer of 128 KiB. So the
file is what the whole encoder makes, and its beginning is what `fmt2jpg`
returns. The tables are static, and the ones of an earlier frame may be
those of another quality: `Statics.Good` holds over any number of frames
(`Statics.Reachable`), and it is enough for the next one.
-/
import SitNChow.Jpeg.Scan
import SitNChow.Jpeg.Shift

namespace SitNChow.Jpeg

open Kit Kit.Bits

-- ================================================= the static tables

/-- The tables for a quality. -/
def Setting.forQuality (quality : Nat) : Setting where
  quant := computeQuantTable quality sStdLumQuant
  quantC := computeQuantTable quality sStdCromaQuant
  dc := dcLum
  dcC := dcChroma
  ac := acLum
  acC := acChroma

/-- The tables of a quality are valid, whatever the quality. -/
theorem Setting.forQuality_valid (quality : Nat) :
    (Setting.forQuality quality).Valid where
  quant := computeQuantTable_valid quality rfl
  quantC := computeQuantTable_valid quality rfl
  dc := rfl
  dcC := rfl
  ac := rfl
  acC := rfl

/-- The transform of every block of a picture is the one over the
integers, and at every quality its coefficients are in the coder's range,
whatever block was coded before, and leave the next one in it. -/
theorem blocks_transformed (p : Picture) (place : Nat × Nat)
    (quality : Nat) : ∀ b ∈ p.blocks place,
      (dct2d b.2).map Int32.toInt = dct2dExact (b.2.map Int32.toInt)
        ∧ Quantized (loadQuantizedCoefficients
          ((Setting.forQuality quality).quantOf b.1) (dct2d b.2))
        ∧ ∀ dcv, DcsInRange dcv →
          Codable (dcv b.1) (loadQuantizedCoefficients
              ((Setting.forQuality quality).quantOf b.1) (dct2d b.2))
            ∧ DcsInRange (setDc dcv b.1 ((loadQuantizedCoefficients
              ((Setting.forQuality quality).quantOf b.1) (dct2d b.2)).headD 0)) := by
  intro b hb
  have hsamples := p.samples_blocks place b hb
  have hquant := quantized_samples hsamples
    (quantOf_pos (Setting.forQuality_valid quality) b.1)
  exact ⟨hsamples.dct2d, hquant, fun dcv hdcv =>
    ⟨hquant.codable hdcv b.1, hquant.setDc hdcv b.1⟩⟩

/-- Columns of black and white in turn. -/
def stripes : Picture :=
  ⟨.yOnly, 8, 8, fun x _ _ => if x % 2 = 0 then 0 else 255⟩

/-- Behind the darkest block that there is, at the best quality. -/
theorem blocks_transformed_stripes :
    (dct2d (stripes.block 0 0 0)).map Int32.toInt
        = dct2dExact ((stripes.block 0 0 0).map Int32.toInt)
      ∧ Codable (-1024) (loadQuantizedCoefficients
        ((Setting.forQuality 100).quantOf 0) (dct2d (stripes.block 0 0 0))) := by
  obtain ⟨hexact, -, hcodable⟩ := blocks_transformed stripes (0, 0) 100
    (0, stripes.block 0 0 0) List.mem_cons_self
  have hdark : (-1024 : Int) ≤ 1020 := by decide
  have hdcv : DcsInRange fun _ => -1024 := fun _ => ⟨Int.le_refl _, hdark⟩
  exact ⟨hexact, (hcodable _ hdcv).1⟩

/-- The static tables are what the flags say they are. -/
structure Statics.Good (st : Statics) : Prop where
  quant : st.lastQuality ≠ 0 →
    st.tables.quant = computeQuantTable st.lastQuality sStdLumQuant
      ∧ st.tables.quantC = computeQuantTable st.lastQuality sStdCromaQuant
  huff : st.huffInitialized = true →
    st.tables.dc = dcLum ∧ st.tables.dcC = dcChroma
      ∧ st.tables.ac = acLum ∧ st.tables.acC = acChroma

variable {st : Statics} {quality : Nat}

/-- At boot the static tables are empty. -/
theorem Statics.good_boot : Statics.boot.Good where
  quant h := absurd rfl h
  huff h := by cases h

/-- `init` makes the tables of its quality out of any good ones. -/
theorem Statics.Good.forQuality (h : st.Good) (hq : quality ≠ 0) :
    (st.forQuality quality).tables = { st.tables with
        quant := computeQuantTable quality sStdLumQuant
        quantC := computeQuantTable quality sStdCromaQuant }
      ∧ (st.forQuality quality).lastQuality = quality
      ∧ (st.forQuality quality).huffInitialized = st.huffInitialized := by
  rw [Statics.forQuality]
  split
  next => exact ⟨rfl, rfl, rfl⟩
  next hsame =>
    have hsame : st.lastQuality = quality := Decidable.not_not.mp hsame
    obtain ⟨hl, hc⟩ := h.quant (by omega)
    rw [hsame] at hl hc
    exact ⟨by rw [← hl, ← hc], hsame, rfl⟩

/-- The tables that an image of this quality is coded with. -/
theorem Statics.Good.tables (h : st.Good) (hq : quality ≠ 0) :
    (st.forQuality quality).withHuffman.tables = Setting.forQuality quality
      ∧ (st.forQuality quality).withHuffman.Good := by
  obtain ⟨ht, hlast, hinit⟩ := h.forQuality hq
  have htables : (st.forQuality quality).withHuffman.tables
      = Setting.forQuality quality := by
    rw [Statics.withHuffman]
    split
    next =>
      dsimp only
      rw [ht]
      rfl
    next hh =>
      have hh : st.huffInitialized = true := by
        rw [← hinit]
        exact Decidable.not_not.mp hh
      obtain ⟨h1, h2, h3, h4⟩ := h.huff hh
      rw [ht]
      dsimp only
      rw [h1, h2, h3, h4]
      rfl
  have hlast' : (st.forQuality quality).withHuffman.lastQuality = quality := by
    rw [Statics.withHuffman]
    split <;> exact hlast
  refine ⟨htables, ⟨fun _ => ?_, fun _ => ?_⟩⟩
  · rw [htables, hlast']
    exact ⟨rfl, rfl⟩
  · rw [htables]
    exact ⟨rfl, rfl, rfl, rfl⟩

-- ====================================================== opening an image

/-- A writer whose bit buffer is empty. -/
def Writer.NoBits (w : Writer) : Prop := w.bitBuffer = 0 ∧ w.bitsIn = 0

variable {w : Writer}

/-- Writing a byte leaves no bits behind. -/
theorem Writer.NoBits.byte (h : w.NoBits) (b : UInt8) :
    (emitByte b w).NoBits := by
  rw [NoBits, bitBuffer_emitByte, bitsIn_emitByte]
  exact h

/-- Nor does a marker. -/
theorem Writer.NoBits.marker (h : w.NoBits) (m : UInt8) :
    (emitMarker m w).NoBits := (h.byte _).byte m

/-- Nor does a word. -/
theorem Writer.NoBits.word (h : w.NoBits) (i : Nat) :
    (emitWord i w).NoBits := (h.byte _).byte _

/-- Nor do several of them. -/
theorem Writer.NoBits.fold {α : Type} {f : Writer → α → Writer}
    (hf : ∀ w a, w.NoBits → (f w a).NoBits) (xs : List α) (h : w.NoBits) :
    (xs.foldl f w).NoBits := by
  induction xs generalizing w with
  | nil => exact h
  | cons x xs ih => exact ih (hf w x h)

/-- Nor do bytes in a row. -/
theorem Writer.NoBits.bytes (h : w.NoBits) (bytes : List UInt8) :
    (emitBytes bytes w).NoBits :=
  h.fold (fun _ b hw => hw.byte b) bytes

/-- The header is made of bytes, not of bits. -/
theorem Writer.NoBits.header (h : w.NoBits) (sub : Subsampling)
    (imageX imageY : Nat) (q : Setting) :
    (emitHeader sub imageX imageY q w).NoBits := by
  have hquant : ∀ {w : Writer} i quant, w.NoBits →
      (emitQuant i quant w).NoBits := fun i quant hw =>
    (((hw.marker _).word _).byte _).bytes _
  have hdht : ∀ {w : Writer} huff i ac, w.NoBits →
      (emitDht huff i ac w).NoBits := fun huff i ac hw =>
    ((((hw.marker _).word _).byte _).bytes _).bytes _
  have happ0 := ((((((((((((((h.marker 0xD8).marker 0xE0).word 16).byte
    0x4A).byte 0x46).byte 0x49).byte 0x46).byte 0).byte 1).byte 1).byte
    0).word 1).word 1).byte 0).byte 0
  have hdqt : (emitDqt sub q (emitJfifApp0 (emitMarker 0xD8 w))).NoBits := by
    rw [emitDqt]
    split
    · exact hquant _ _ (hquant _ _ happ0)
    · exact hquant _ _ happ0
  have hsof : ∀ {w : Writer}, w.NoBits →
      (emitSof sub imageX imageY w).NoBits := fun hw =>
    ((((((hw.marker _).word _).byte _).word _).word _).byte _).fold
      (fun _ _ hw => ((hw.byte _).byte _).byte _) _
  have hdhts : ∀ {w : Writer}, w.NoBits → (emitDhts sub q w).NoBits := by
    intro w hw
    rw [emitDhts]
    split
    · exact hdht _ _ _ (hdht _ _ _ (hdht _ _ _ (hdht _ _ _ hw)))
    · exact hdht _ _ _ (hdht _ _ _ hw)
  have hsos : ∀ {w : Writer}, w.NoBits → (emitSos sub w).NoBits := fun hw =>
    (((((((hw.marker _).word _).byte _).fold
      (fun _ _ hw => (hw.byte _).byte _) _)).byte _).byte _).byte _
  exact hsos (hdhts (hsof hdqt))

/-- No bits have been coded yet. -/
theorem Emitted.coded {room : Nat} {hd : List UInt8} (h : Emitted room hd w)
    (hb : w.NoBits) : Coded room hd [] w := by
  refine ⟨[], Nat.zero_lt_succ 7, ⟨[], ?_, rfl⟩, hb.2, ?_⟩
  · rw [stuff_nil, List.append_nil]
    exact h
  · rw [hb.1]
    rfl

/-- The encoder when an image has been opened. -/
theorem jpgOpen_fed (room : Nat) {p : Picture} (params : Params)
    (hst : st.Good) (hq : params.quality ≠ 0) (hsub : params.subsampling = p.sub)
    (channels : Nat) (byte : Nat → UInt8) :
    let q := Setting.forQuality params.quality
    ∃ e, jpgOpen ⟨[], room⟩ params p.width p.height channels (some byte) st
        = (some e, (st.forQuality params.quality).withHuffman)
      ∧ (st.forQuality params.quality).withHuffman.tables = q
      ∧ e.imageBpp = channels
      ∧ Fed room (headerBytes p.sub p.width p.height q) q p 0 0 e := by
  intro q
  obtain ⟨htables, -⟩ := hst.tables hq
  have hvalid : q.Valid := Setting.forQuality_valid params.quality
  let w₀ : Writer := ⟨⟨[], room⟩, true, [], 0, 0⟩
  have hem₀ : Emitted room [] w₀ :=
    ⟨rfl, rfl, Nat.zero_lt_succ 511, [], rfl, List.take_nil.symm⟩
  have hem : Emitted room (headerBytes p.sub p.width p.height q)
      (emitHeader p.sub p.width p.height q w₀) :=
    hem₀.header hvalid p.width p.height
  have hcoded := hem.coded
    (Writer.NoBits.header ⟨rfl, rfl⟩ p.sub p.width p.height q)
  let bplMcu := imageXMcu p.sub p.width * p.sub.numComponents
  let e : JpegEncoder :=
    { writer := emitHeader p.sub p.width p.height q w₀
      lastDcVal := fun _ => 0, params := params, imageX := p.width
      imageY := p.height, imageBpp := channels
      mcuLines := (List.range p.sub.mcuY).map fun i =>
        (List.range bplMcu).map fun j => byte (i * bplMcu + j)
      mcuYOfs := 0, passNum := 2 }
  refine ⟨e, ?_, htables, rfl, ?_⟩
  · rw [jpgOpen]
    rw [htables, hsub, if_pos hem.succeeded]
  · refine ⟨hsub, rfl, rfl, ?_, rfl, ?_, ?_⟩
    · rw [List.length_map, List.length_range]
    · intro k hk
      exact absurd hk (Nat.not_lt_zero k)
    · exact ⟨hcoded, rfl, dcsInRange_zero⟩

-- ========================================================== the frame

/-- The bytes of a pixel in a line. -/
def channelsOf (format : PixFormat) : Nat := if format = .grayscale then 1 else 3

/-- The subsampling that `convert_image` asks for. -/
def subsamplingOf (format : PixFormat) : Subsampling :=
  if format = .grayscale then .yOnly else .h2v2

/-- The quality that `convert_image` asks for. -/
def qualityOf (quality : Nat) : Nat :=
  if quality = 0 then 1 else if 100 < quality then 100 else quality

/-- A frame, and what was in the memory of the line before. -/
structure Frame where
  src : List UInt8
  width : Nat
  height : Nat
  format : PixFormat
  memory : Nat → UInt8

/-- The lines that the encoder is fed. -/
def Frame.line (f : Frame) (i : Nat) : List UInt8 :=
  convertLineFormat f.src f.format
    ((List.range (f.width * channelsOf f.format)).map f.memory) f.width i

/-- The picture that the encoder is fed. -/
def Frame.picture (f : Frame) : Picture where
  sub := subsamplingOf f.format
  width := f.width
  height := f.height
  pixel x y c := (translated (subsamplingOf f.format) f.width
    (channelsOf f.format) (f.line y)).getD
      ((subsamplingOf f.format).numComponents * x + c) 0

/-- A line of the encoder has a byte for each component and pixel. -/
theorem length_translated (sub : Subsampling) (imageX bpp : Nat)
    (src : List UInt8) :
    (translated sub imageX bpp src).length = sub.numComponents * imageX := by
  unfold translated
  obtain h1 | h3 := numComponents_cases sub
  · rw [if_pos h1, h1]
    split <;> simp [rgbToY]
  · rw [if_neg (by omega), h3]
    split
    · exact length_flatMap_range (m := 3) (fun _ => rfl) imageX
    · exact length_flatMap_range (m := 3) (fun _ => rfl) imageX

variable {f : Frame}

/-- The encoder makes the line of the picture out of a line of the frame. -/
theorem Frame.lineIs (f : Frame) (i : Nat) :
    f.picture.LineIs i (translated f.picture.sub f.picture.width
      (channelsOf f.format) (f.line i)) where
  length := length_translated _ _ _ _
  pixel _ _ _ _ := rfl

/-- Every line of a frame is as long as the others. -/
theorem length_convertedLine (src : List UInt8) (format : PixFormat)
    (width line : Nat) : (convertedLine src format width line).length
      = match format with
        | .grayscale => width
        | .rgb888 | .rgb565 => 3 * width
        | .yuv422 => 6 * ((width + 1) / 2)
        | _ => 0 := by
  cases format with
  | grayscale => rw [convertedLine, List.length_map, List.length_range]
  | rgb888 => exact length_flatMap_range (m := 3) (fun _ => rfl) width
  | rgb565 => exact length_flatMap_range (m := 3) (fun _ => rfl) width
  | yuv422 => exact length_flatMap_range (m := 6) (fun _ => rfl) _
  | yuv420 | jpeg | raw | rgb444 | rgb555 | raw8 => rfl

/-- Only for YUV422 and an odd width they do not fit the line. -/
theorem convertedLine_fits (src : List UInt8) {format : PixFormat}
    {width : Nat} (heven : format = .yuv422 → width % 2 = 0) (line : Nat) :
    (convertedLine src format width line).length ≤ width * channelsOf format := by
  rw [length_convertedLine, channelsOf]
  cases format with
  | yuv422 =>
      have := heven rfl
      dsimp only
      rw [if_neg PixFormat.noConfusion]
      omega
  | grayscale => exact Nat.le_of_eq (Nat.mul_one width).symm
  | rgb888 | rgb565 =>
      rw [if_neg PixFormat.noConfusion, Nat.mul_comm]
  | yuv420 | jpeg | raw | rgb444 | rgb555 | raw8 => exact Nat.zero_le _

/-- The line keeps its length. -/
theorem length_convertLineFormat (src : List UInt8) (format : PixFormat)
    (dst : List UInt8) (width i : Nat) :
    (convertLineFormat src format dst width i).length = dst.length := by
  unfold convertLineFormat
  dsimp only
  rw [List.length_take, List.length_append, List.length_drop]
  omega

/-- So nothing of a line is left in the next one. -/
theorem convertLineFormat_again (src : List UInt8) (format : PixFormat)
    (dst : List UInt8) (width i j : Nat) :
    convertLineFormat src format (convertLineFormat src format dst width i)
      width j = convertLineFormat src format dst width j := by
  have hlen := (length_convertedLine src format width j).trans
    (length_convertedLine src format width i).symm
  have hdst := length_convertLineFormat src format dst width i
  have hrest : (convertLineFormat src format dst width i).drop
      (convertedLine src format width i).length
        = dst.drop (convertedLine src format width i).length := by
    unfold convertLineFormat
    dsimp only
    rw [List.drop_take, List.drop_left, List.take_of_length_le]
    rw [List.length_drop]
  rw [convertLineFormat, hdst, hlen, hrest, ← hlen]
  rfl

-- ============================================================ fmt2jpg

/-- The tables of the file that is made of a frame. -/
def settingOf (quality : UInt8) : Setting :=
  Setting.forQuality (qualityOf quality.toNat)

/-- The frame of a call of `fmt2jpg`. -/
def frameOf (src : List UInt8) (width height : UInt16) (format : PixFormat)
    (memory : Nat → UInt8) : Frame :=
  ⟨src, width.toNat, height.toNat, format, memory⟩

/-- `convert_image` keeps the quality between 1 and 100. -/
theorem qualityOf_range (quality : Nat) :
    1 ≤ qualityOf quality ∧ qualityOf quality ≤ 100 := by
  unfold qualityOf
  split
  · omega
  · split <;> omega

variable (src : List UInt8) {width height : UInt16} (format : PixFormat)
  (q8 : UInt8) (lines memory : Nat → UInt8)

/-- Where no allocation fails and no step does, `convert_image` gives what the
encoder has written. -/
theorem convertImage_eq {m : Mallocs} {stream : MemoryStream}
    {w h quality : Nat} {byte : Nat → UInt8} {st st' : Statics}
    {e e' : JpegEncoder} (hline : m.line = some byte)
    (hinit : JpegEncoder.init stream w h (channelsOf format)
      ⟨qualityOf quality, subsamplingOf format⟩ m.mcuLines st = (some e, st'))
    (hscan : scanLines st'.tables src format w (List.range h)
      ((List.range (w * channelsOf format)).map byte) e = some e')
    (hdone : (processScanline st'.tables none e').1 = true) :
    convertImage m src w h format quality stream st
      = (some (processScanline st'.tables none e').2.writer.stream, st') := by
  unfold channelsOf qualityOf subsamplingOf at hinit
  unfold channelsOf at hscan
  rw [convertImage]
  simp only [hinit, hline, hscan, hdone, if_true]

/-- What `fmt2jpg` returns is the file of the frame's picture, as far as
the buffer has room. -/
theorem fmt2jpg_file (hst : st.Good) (hw : width ≠ 0) (hh : height ≠ 0) :
    ∃ file, IsFile (frameOf src width height format memory).picture
        (settingOf q8) file
      ∧ fmt2jpg ⟨true, some lines, some memory⟩ src width height format q8 st
        = (some (file.take jpgBufLen),
          (st.forQuality (qualityOf q8.toNat)).withHuffman) := by
  let f := frameOf src width height format memory
  have hw : 0 < width.toNat := by
    refine Nat.pos_of_ne_zero fun h0 => hw ?_
    exact UInt16.toNat_inj.mp h0
  have hh : 0 < height.toNat := by
    refine Nat.pos_of_ne_zero fun h0 => hh ?_
    exact UInt16.toNat_inj.mp h0
  obtain ⟨hq1, hq100⟩ := qualityOf_range q8.toNat
  let params : Params := ⟨qualityOf q8.toNat, subsamplingOf format⟩
  have hvalid : (settingOf q8).Valid := Setting.forQuality_valid _
  have hsub : params.subsampling = f.picture.sub := rfl
  obtain ⟨e, hopen, htables, hbpp, hfed⟩ := jpgOpen_fed jpgBufLen params hst
    (by
      show qualityOf q8.toNat ≠ 0
      omega) hsub (channelsOf format) lines
  have hinit : JpegEncoder.init ⟨[], jpgBufLen⟩ width.toNat height.toNat
      (channelsOf format) params (some lines) st
      = (some e, (st.forQuality (qualityOf q8.toNat)).withHuffman) := by
    have hcheck : params.check = true := by
      simp only [Params.check, params, hq1, hq100, decide_true, Bool.and_self]
    have hch : channelsOf format = 1 ∨ channelsOf format = 3 := by
      unfold channelsOf
      split <;> omega
    have hok : ¬ (width.toNat < 1 ∨ height.toNat < 1
        ∨ channelsOf format ≠ 1 ∧ channelsOf format ≠ 3 ∧ channelsOf format ≠ 4
        ∨ ¬ params.check = true) := by
      simp only [hcheck, not_true_eq_false, or_false]
      omega
    rw [JpegEncoder.init, if_neg hok]
    exact hopen
  have hmcu : 0 < f.picture.sub.mcuY := by
    cases f.picture.sub <;> decide
  have hline : ∀ i < f.picture.height, f.picture.LineIs i
      (translated f.picture.sub f.picture.width e.imageBpp (f.line i)) := by
    intro i _
    rw [hbpp]
    exact f.lineIs i
  have hagain : ∀ i j, convertLineFormat src format (f.line i) f.picture.width j
      = f.line j :=
    fun i j => convertLineFormat_again _ _ _ _ i j
  have hfirst : ∀ j, convertLineFormat src format
      ((List.range (width.toNat * channelsOf format)).map memory)
      f.picture.width j = f.line j :=
    fun _ => rfl
  obtain ⟨e', r, k, hscan, hfed', hk, hy⟩ := hfed.scanLines hvalid hw hline
    hagain f.picture.height hfirst hmcu (by omega)
  obtain ⟨file, hfile, htrue, hout⟩ := hfed'.endOfImage hvalid hk hy
  refine ⟨file, hfile, ?_⟩
  have hrange : List.range height.toNat
      = List.range' (0 * f.picture.sub.mcuY + 0) f.picture.height := by
    rw [Nat.zero_mul, List.range_eq_range']
    rfl
  have hconvert : convertImage ⟨true, some lines, some memory⟩ src width.toNat
      height.toNat format q8.toNat ⟨[], jpgBufLen⟩ st
      = (some (processScanline (settingOf q8) none e').2.writer.stream,
        (st.forQuality (qualityOf q8.toNat)).withHuffman) := by
    have hst' : (st.forQuality (qualityOf q8.toNat)).withHuffman.tables
        = settingOf q8 := htables
    have htrue : (processScanline (settingOf q8) none e').1 = true := htrue
    rw [← hst'] at hscan htrue ⊢
    rw [← hrange] at hscan
    exact convertImage_eq src format rfl hinit hscan htrue
  have hout' : (processScanline (settingOf q8) none e').2.writer.stream.outBuf
      = file.take jpgBufLen := hout
  rw [fmt2jpg, if_neg (fun h => h rfl), hconvert, ← hout']
  rfl

-- ===================================================== and back again

/-- The components of an MCU's blocks are those the decoder expects. -/
theorem Picture.coefficients_components (p : Picture) (q : Setting)
    (place : Nat × Nat) : (p.coefficients q place).map Prod.fst
      = Coming p.sub.numComponents
        (mcuComponents (p.sub.hSamp * p.sub.vSamp)) := by
  rw [coefficients, List.map_map]
  have hfst : (Prod.fst ∘ fun b : Nat × List Int32 =>
      (b.1, loadQuantizedCoefficients (q.quantOf b.1) (dct2d b.2)))
      = Prod.fst := rfl
  rw [hfst, blocks]
  cases p.sub <;> rfl

/-- The components of an MCU are those of the frame. -/
theorem component_lt (sub : Subsampling) :
    ∀ cmp ∈ Coming sub.numComponents (mcuComponents (sub.hSamp * sub.vSamp)),
      cmp < sub.numComponents := by
  cases sub <;> decide

/-- The decoder reads a file, and restores all blocks of the picture: the
coefficients of each, times the quantizers. -/
def Restores {ι : Type} (R : Reader ι) (start : Stream → ι)
    (szbuf szYuv szPool : Nat) (p : Picture) (q : Setting)
    (file : List UInt8) : Prop :=
  ∃ jd rs jd', jdPrepare szbuf szYuv start file szPool = .ok jd
    ∧ jd.width = p.width ∧ jd.height = p.height
    ∧ jdDecomp R jd = .ok (rs, jd')
    ∧ List.Forall₂ (fun m r => List.Forall₂ (Restored q.tables) m
        (r.filterMap id)) (p.mcus q) rs

/-- What stands behind a file does not matter. -/
theorem IsFile.restored {ι : Type} {R : Reader ι} {start : Stream → ι}
    {H : ι → List Bool → Prop} {p : Picture} {q : Setting}
    {file rest : List UInt8} {szbuf szYuv szPool : Nat} (h : IsFile p q file)
    (hq : q.Valid) (hR : R.Reads H)
    (hstart : ∀ s bytes, s.unread = stuff bytes ++ ([0xFF, 0xD9] ++ rest) →
      H (start s) (toBits bytes))
    (hw : p.width ≠ 0) (hh : p.height ≠ 0) (hw16 : p.width < 65536)
    (hh16 : p.height < 65536) (hsz : 179 ≤ szbuf)
    (hpool : poolCost szbuf szYuv p.sub ≤ szPool) :
    Restores R start szbuf szYuv szPool p q (file ++ rest) := by
  obtain ⟨bytes, ⟨pad, hpad, -, -⟩, rfl⟩ := h
  rw [List.append_assoc, List.append_assoc]
  obtain ⟨jd, s, hprep, hinput, hunread, hp⟩ := jdPrepare_header start
    (stuff bytes ++ ([0xFF, 0xD9] ++ rest)) szYuv szPool hq hw hh hw16 hh16 hsz
  rw [if_pos hpool] at hprep
  have hcomps : Coming jd.ncomp (mcuComponents (jd.msx * jd.msy))
      = Coming p.sub.numComponents
        (mcuComponents (p.sub.hSamp * p.sub.vSamp)) := by
    rw [hp.ncomp, hp.msx, hp.msy]
  have hholds : H jd.input
      (scanBits q.tables (fun _ => 0) (p.mcus q).flatten ++ pad) := by
    rw [← hpad, hinput]
    exact hstart s bytes hunread
  have hplaces : mcuPlaces jd.width jd.height (jd.msx * 8) (jd.msy * 8)
      = mcuPlaces p.width p.height p.sub.mcuX p.sub.mcuY := by
    rw [hp.width, hp.height, hp.msx, hp.msy]
    rfl
  have hall := allCodable_quantized dcsInRange_zero (p.quantized_mcus hq)
  have hfit := p.fit_mcus hq
  have hlength : (mcuPlaces p.width p.height p.sub.mcuX p.sub.mcuY).length
      = (p.mcus q).length := by
    rw [Picture.mcus, List.length_map]
  have hhas : ∀ cmp ∈ Coming jd.ncomp (mcuComponents (jd.msx * jd.msy)),
      ({ jd with dcv := fun _ => 0 } : Jdec ι).Has cmp (q.tables cmp) := by
    intro cmp hcmp
    rw [hcomps] at hcmp
    exact (hp.tables cmp (component_lt p.sub cmp hcmp)).moved jd.input _
  obtain ⟨rs, s', hrun, -, hrestored⟩ := decompLoop_spec hR
    { jd with dcv := fun _ => 0 } hlength hp.nrst hhas
    (fun m hm => by
      obtain ⟨place, -, rfl⟩ := List.mem_map.mp hm
      rw [p.coefficients_components]
      exact hcomps.symm)
    hall hfit hholds 0 0
  rw [← hplaces] at hrun
  exact ⟨jd, rs, _, hprep, hp.width, hp.height, hrun, hrestored⟩

/-- Where `fmt2jpg` cuts a file off, its header is long over. -/
theorem IsFile.header_prefix {p : Picture} {q : Setting} {file : List UInt8}
    (h : IsFile p q file) (hq : q.Valid) :
    ∀ given ∈ [file, file.take jpgBufLen], ∃ rest,
      given = headerBytes p.sub p.width p.height q ++ rest := by
  obtain ⟨bytes, -, rfl⟩ := h
  rw [List.append_assoc]
  intro given hgiven
  rcases List.mem_cons.mp hgiven with rfl | hgiven
  · exact ⟨_, rfl⟩
  · obtain rfl := List.mem_singleton.mp hgiven
    have hle := length_headerBytes_le p.sub p.width p.height hq
    have hlen : (headerBytes p.sub p.width p.height q).length ≤ jpgBufLen :=
      Nat.le_trans hle (by decide)
    rw [List.take_append, List.take_of_length_le hlen]
    exact ⟨_, rfl⟩

/-- The decoder accepts a file, or what there is of it, exactly if its pool
is large enough. -/
theorem IsFile.prepared {ι : Type} (start : Stream → ι) {p : Picture}
    {q : Setting} {file given : List UInt8} {szbuf : Nat} (h : IsFile p q file)
    (hgiven : given ∈ [file, file.take jpgBufLen])
    (hq : q.Valid) (hw : p.width ≠ 0) (hh : p.height ≠ 0)
    (hw16 : p.width < 65536) (hh16 : p.height < 65536) (hsz : 179 ≤ szbuf)
    (szYuv szPool : Nat) (rest : List UInt8) :
    ∃ jd : Jdec ι, jdPrepare szbuf szYuv start (given ++ rest) szPool
      = if poolCost szbuf szYuv p.sub ≤ szPool then .ok jd
        else .error .mem1 := by
  obtain ⟨data, rfl⟩ := h.header_prefix hq given hgiven
  rw [List.append_assoc]
  obtain ⟨jd, s, hprep, -⟩ := jdPrepare_header start (data ++ rest) szYuv szPool hq
    hw hh hw16 hh16 hsz
  exact ⟨jd, hprep⟩

/-- The basic reader starts in front of the bits of the scan. -/
theorem Basic.start_holds {bytes tail : List UInt8} {s : Stream}
    (h : s.unread = stuff bytes ++ tail) :
    (Basic.start s).Holds tail (toBits bytes) :=
  ⟨[], bytes, ⟨0, Nat.zero_le 8, rfl, rfl⟩, rfl, h⟩

/-- The shift-register reader starts in front of the bits of the scan. -/
theorem Shift.start_holds {bytes tail : List UInt8} {m : UInt8} {s : Stream}
    (h : s.unread = stuff bytes ++ ([0xFF, m] ++ tail)) :
    (Shift.start s).Holds m tail (toBits bytes) := by
  have hmasked : (Shift.start s).masked.toNat = 0 := by
    rw [Shift.masked, Shift.start, UInt32.zero_and]
    rfl
  refine ⟨[], toBits bytes, 0, rfl, ⟨hmasked, Nat.zero_le 23⟩,
    .inl ⟨rfl, bytes, rfl, ?_⟩, (List.append_nil _).symm⟩
  rw [List.append_assoc]
  exact h

-- ============================================= after any number of frames

/-- The static data after any number of frames, in whatever size, format
and quality, and however they ended. -/
inductive Statics.Reachable : Statics → Prop where
  | boot : Reachable .boot
  | frame {st : Statics} (m : Mallocs) (src : List UInt8)
      (width height : UInt16) (format : PixFormat) (quality : UInt8) :
      Reachable st → Reachable (fmt2jpg m src width height format quality st).2

/-- A frame leaves the tables alone, or makes those of its quality. -/
theorem fmt2jpg_statics (m : Mallocs) (src : List UInt8)
    (width height : UInt16) (format : PixFormat) (quality : UInt8)
    (st : Statics) :
    (fmt2jpg m src width height format quality st).2 = st
      ∨ (fmt2jpg m src width height format quality st).2
        = (st.forQuality (qualityOf quality.toNat)).withHuffman := by
  have hinit : ∀ stream channels params, params.quality = qualityOf quality.toNat →
      ((JpegEncoder.init stream width.toNat height.toNat channels params
          m.mcuLines st).2 = st
        ∨ (JpegEncoder.init stream width.toNat height.toNat channels params
          m.mcuLines st).2
          = (st.forQuality (qualityOf quality.toNat)).withHuffman) := by
    intro stream channels params hparams
    rw [JpegEncoder.init]
    split
    next => exact .inl rfl
    next =>
      unfold jpgOpen
      split
      next => exact .inl rfl
      next => exact .inr (by rw [hparams])
  have hconvert : ∀ stream, (convertImage m src width.toNat height.toNat format
        quality.toNat stream st).2 = st
      ∨ (convertImage m src width.toNat height.toNat format quality.toNat
        stream st).2 = (st.forQuality (qualityOf quality.toNat)).withHuffman := by
    intro stream
    have := hinit stream (channelsOf format)
      ⟨qualityOf quality.toNat, subsamplingOf format⟩ rfl
    have hall : (convertImage m src width.toNat height.toNat format
        quality.toNat stream st).2
        = (JpegEncoder.init stream width.toNat height.toNat (channelsOf format)
          ⟨qualityOf quality.toNat, subsamplingOf format⟩ m.mcuLines st).2 := by
      unfold convertImage
      dsimp only
      split
      next h => exact (congrArg Prod.snd h).symm
      next h =>
        split
        · exact (congrArg Prod.snd h).symm
        · split
          · exact (congrArg Prod.snd h).symm
          · exact (congrArg Prod.snd h).symm
    rw [hall]
    exact this
  rw [fmt2jpg]
  split
  next => exact .inl rfl
  next => exact hconvert _

/-- The static tables are good after any calls. -/
theorem Statics.Reachable.good (h : st.Reachable) : st.Good := by
  induction h with
  | boot => exact good_boot
  | frame m src width height format quality _ ih =>
      obtain hsame | hnew := fmt2jpg_statics m src width height format quality _
      · rw [hsame]
        exact ih
      · rw [hnew]
        exact (ih.tables (by
          have := (qualityOf_range quality.toNat).1
          omega)).2

/-- Whatever was encoded before, the file that is made of a frame is
decoded to exactly the coefficients of its picture, by both versions of
the decoder; and no line of the frame is longer than the memory for it. -/
theorem fmt2jpg_restored (hst : st.Reachable) (hw : width ≠ 0)
    (hh : height ≠ 0) (heven : format = .yuv422 → width.toNat % 2 = 0)
    {szbuf szPool : Nat} (hsz : 179 ≤ szbuf)
    (hpool : poolCost szbuf 2 (subsamplingOf format) ≤ szPool) :
    (∀ i, (convertedLine src format width.toNat i).length
        ≤ width.toNat * channelsOf format)
      ∧ ∃ file, (fmt2jpg ⟨true, some lines, some memory⟩ src width height format
          q8 st).1 = some (file.take jpgBufLen)
        ∧ ∀ rest,
          Restores (basic szbuf) Basic.start szbuf 1 szPool
            (frameOf src width height format memory).picture (settingOf q8)
            (file ++ rest)
          ∧ Restores (shift szbuf) Shift.start szbuf 2 szPool
            (frameOf src width height format memory).picture (settingOf q8)
            (file ++ rest) := by
  obtain ⟨file, hfile, hout⟩ := fmt2jpg_file src format q8 lines memory hst.good
    hw hh
  have hvalid : (settingOf q8).Valid := Setting.forQuality_valid _
  have hw0 : width.toNat ≠ 0 := fun h0 => hw (UInt16.toNat_inj.mp h0)
  have hh0 : height.toNat ≠ 0 := fun h0 => hh (UInt16.toNat_inj.mp h0)
  have hpool1 : poolCost szbuf 1 (subsamplingOf format) ≤ szPool := by
    unfold poolCost Subsampling.loadCost Subsampling.workCost at hpool ⊢
    omega
  refine ⟨convertedLine_fits src heven, file, by rw [hout],
    fun rest => ⟨?_, ?_⟩⟩
  · exact hfile.restored hvalid
      (basic_reads (show 0 < szbuf by omega) ([0xFF, 0xD9] ++ rest))
      (fun s bytes h => Basic.start_holds h) hw0 hh0 width.toNat_lt
      height.toNat_lt hsz hpool1
  · exact hfile.restored hvalid
      (shift_reads (show 0 < szbuf by omega) (m := 0xD9) (by decide) rest)
      (fun s bytes h => Shift.start_holds h) hw0 hh0 width.toNat_lt
      height.toNat_lt hsz hpool

/-- A YUV422 frame of 20 by 10 pixels at quality 80, with the buffer of 512
bytes and a pool of 3500. -/
theorem fmt2jpg_restored_first :
    ∃ file, (fmt2jpg ⟨true, some fun _ => 0, some fun _ => 0⟩
        (List.replicate 400 0x5A) 20 10 .yuv422 80 .boot).1
        = some (file.take jpgBufLen)
      ∧ ∀ rest,
        Restores (basic 512) Basic.start 512 1 3500
          (frameOf (List.replicate 400 0x5A) 20 10 .yuv422 fun _ => 0).picture
          (settingOf 80) (file ++ rest)
        ∧ Restores (shift 512) Shift.start 512 2 3500
          (frameOf (List.replicate 400 0x5A) 20 10 .yuv422 fun _ => 0).picture
          (settingOf 80) (file ++ rest) :=
  (fmt2jpg_restored (List.replicate 400 0x5A) .yuv422 80 (fun _ => 0)
    (fun _ => 0) .boot (by decide) (by decide) (fun _ => by decide) (by decide)
    (by decide)).2

/-- The decoder accepts the file of a frame, also where it is cut off,
exactly if its memory pool has room for the tables and the buffers;
otherwise it is out of memory. -/
theorem fmt2jpg_prepared_iff (hst : st.Reachable) (hw : width ≠ 0)
    (hh : height ≠ 0) {szbuf : Nat} (hsz : 179 ≤ szbuf) :
    ∃ file, (fmt2jpg ⟨true, some lines, some memory⟩ src width height format
        q8 st).1 = some (file.take jpgBufLen)
      ∧ ∀ given ∈ [file, file.take jpgBufLen],
        ∀ (ι : Type) (start : Stream → ι) (szYuv szPool : Nat)
          (rest : List UInt8),
        ((∃ jd, jdPrepare szbuf szYuv start (given ++ rest) szPool = .ok jd)
          ↔ poolCost szbuf szYuv (subsamplingOf format) ≤ szPool)
        ∧ (jdPrepare szbuf szYuv start (given ++ rest) szPool = .error .mem1
          ↔ szPool < poolCost szbuf szYuv (subsamplingOf format)) := by
  obtain ⟨file, hfile, hout⟩ := fmt2jpg_file src format q8 lines memory hst.good
    hw hh
  have hw0 : width.toNat ≠ 0 := fun h0 => hw (UInt16.toNat_inj.mp h0)
  have hh0 : height.toNat ≠ 0 := fun h0 => hh (UInt16.toNat_inj.mp h0)
  refine ⟨file, by rw [hout], fun given hgiven ι start szYuv szPool rest => ?_⟩
  obtain ⟨jd, hprep⟩ := hfile.prepared start hgiven
    (Setting.forQuality_valid _) hw0 hh0 width.toNat_lt height.toNat_lt hsz
    szYuv szPool rest
  have hsub : (frameOf src width height format memory).picture.sub
      = subsamplingOf format := rfl
  rw [hprep, hsub]
  by_cases hpool : poolCost szbuf szYuv (subsamplingOf format) ≤ szPool
  · rw [if_pos hpool]
    exact ⟨⟨fun _ => hpool, fun _ => ⟨jd, rfl⟩⟩,
      ⟨fun h => absurd h (fun h => by cases h),
        fun h => absurd hpool (Nat.not_le_of_lt h)⟩⟩
  · rw [if_neg hpool]
    have hno : ∀ jd', (.error .mem1 : Except JResult (Jdec ι)) ≠ .ok jd' :=
      fun _ h => by cases h
    exact ⟨⟨fun h => absurd h.choose_spec (hno _), fun h => absurd h hpool⟩,
      ⟨fun _ => Nat.lt_of_not_le hpool, fun _ => rfl⟩⟩

/-- The component's own work buffer, `JPEG_WORK_BUF_SIZE`, is 3100 bytes:
for a colour file enough for the basic reader, and too small for the
32-bit one, which takes 3480. -/
theorem fmt2jpg_prepared_iff_first :
    ∃ out, (fmt2jpg ⟨true, some fun _ => 0, some fun _ => 0⟩
        (List.replicate 400 0x5A) 20 10 .rgb565 80 .boot).1 = some out
      ∧ (∃ jd, jdPrepare 512 1 Basic.start out 3100 = .ok jd)
      ∧ jdPrepare 512 2 Shift.start out 3100 = .error .mem1
      ∧ (∃ jd, jdPrepare 512 2 Shift.start out 3480 = .ok jd)
      ∧ jdPrepare 512 2 Shift.start out 3479 = .error .mem1 := by
  obtain ⟨file, hout, hgiven⟩ := fmt2jpg_prepared_iff (List.replicate 400 0x5A)
    .rgb565 80 (fun _ => 0) (fun _ => 0) .boot
    (show (20 : UInt16) ≠ 0 by decide) (show (10 : UInt16) ≠ 0 by decide)
    (show 179 ≤ 512 by decide)
  have hcut := hgiven (file.take jpgBufLen)
    (List.mem_cons_of_mem _ (List.mem_singleton_self _))
  have hbasic := hcut Basic Basic.start 1
  have hshift := hcut Shift Shift.start 2
  refine ⟨file.take jpgBufLen, hout, ?_, ?_, ?_, ?_⟩
  · obtain ⟨jd, hjd⟩ := (hbasic 3100 []).1.mpr (by decide)
    rw [List.append_nil] at hjd
    exact ⟨jd, hjd⟩
  · have herr := (hshift 3100 []).2.mpr (by decide)
    rwa [List.append_nil] at herr
  · obtain ⟨jd, hjd⟩ := (hshift 3480 []).1.mpr (by decide)
    rw [List.append_nil] at hjd
    exact ⟨jd, hjd⟩
  · have herr := (hshift 3479 []).2.mpr (by decide)
    rwa [List.append_nil] at herr

end SitNChow.Jpeg
