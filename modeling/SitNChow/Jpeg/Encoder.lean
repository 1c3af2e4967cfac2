/-
The JPEG encoder as a whole: it is fed one line of the image after
another, and `fmt2jpg` feeds it a frame.

The lines wait in `m_mcu_lines` until a row of MCUs is complete; then the
row's blocks are transformed, quantized and coded. The quantizers and the
Huffman tables are static: they are computed when an image asks for
another quality than the last one, and at the first image.
-/
import SitNChow.Jpeg.Header
import SitNChow.Jpeg.Pixels

namespace SitNChow.Jpeg

/-- `params` -/
structure Params where
  quality : Nat
  subsampling : Subsampling

/-- `params::check`; there are no other kinds of subsampling. -/
def Params.check (p : Params) : Bool := 1 ≤ p.quality && p.quality ≤ 100

/-- The static data: `m_last_quality`, `m_huff_initialized` and the
tables. -/
structure Statics where
  lastQuality : Nat
  huffInitialized : Bool
  tables : Setting

/-- The fields of `jpeg_encoder` that change when a block is coded. -/
structure BlockCoder where
  writer : Writer
  lastDcVal : Nat → Int

/-- The fields of `jpeg_encoder`. -/
structure JpegEncoder extends BlockCoder where
  params : Params
  imageX : Nat
  imageY : Nat
  imageBpp : Nat
  mcuLines : List (List UInt8)
  mcuYOfs : Nat
  passNum : Nat

/-- The subsampling, with all that depends on it. -/
def JpegEncoder.sub (e : JpegEncoder) : Subsampling := e.params.subsampling

/-- `m_image_x_mcu`: `& ~(m_mcu_x - 1)` clears the low bits. -/
def imageXMcu (sub : Subsampling) (imageX : Nat) : Nat :=
  (imageX + sub.mcuX - 1) / sub.mcuX * sub.mcuX

/-- `m_mcus_per_row` -/
def mcusPerRow (sub : Subsampling) (imageX : Nat) : Nat :=
  imageXMcu sub imageX / sub.mcuX

-- ==================================================== the blocks of an MCU

/-- A byte of `m_mcu_lines`. -/
def lineByte (lines : List (List UInt8)) (y x : Nat) : Nat :=
  ((lines.getD y []).getD x 0).toNat

/-- An entry of `m_sample_array`. -/
def sample (i : Nat) : Int32 := Int32.ofNat i - 128

/-- `m_sample_array`, line by line. -/
def sampleArray (f : (i j : Nat) → Nat) : List Int32 :=
  (List.range 8).flatMap fun i => (List.range 8).map fun j => sample (f i j)

/-- `load_block_8_8_grey` -/
def loadBlock88Grey (lines : List (List UInt8)) (x : Nat) : List Int32 :=
  let x := x <<< 3
  sampleArray fun i j => lineByte lines i (x + j)

/-- `load_block_8_8` -/
def loadBlock88 (lines : List (List UInt8)) (x y c : Nat) : List Int32 :=
  let x := x * (8 * 3) + c
  let y := y <<< 3
  sampleArray fun i j => lineByte lines (y + i) (x + j * 3)

/-- `load_block_16_8`: the mean of four pixels. `a` and `b` change places
with every line. -/
def loadBlock168 (lines : List (List UInt8)) (x c : Nat) : List Int32 :=
  let x := x * (16 * 3) + c
  sampleArray fun i j =>
    let a := if i % 2 = 0 then 0 else 2
    let b := if i % 2 = 0 then 2 else 0
    (lineByte lines (2 * i) (x + 2 * j * 3)
      + lineByte lines (2 * i) (x + (2 * j + 1) * 3)
      + lineByte lines (2 * i + 1) (x + 2 * j * 3)
      + lineByte lines (2 * i + 1) (x + (2 * j + 1) * 3)
      + if j % 2 = 0 then a else b) >>> 2

/-- `load_block_16_8_8`: the mean of two pixels. -/
def loadBlock1688 (lines : List (List UInt8)) (x c : Nat) : List Int32 :=
  let x := x * (16 * 3) + c
  sampleArray fun i j =>
    (lineByte lines i (x + 2 * j * 3)
      + lineByte lines i (x + (2 * j + 1) * 3)) >>> 1

/-- The blocks that `process_mcu_row` loads for the MCU `i` of a row, in
their order, each with the component it is coded for. -/
def mcuBlocks (sub : Subsampling) (lines : List (List UInt8)) (i : Nat) :
    List (Nat × List Int32) :=
  match sub with
  | .yOnly => [(0, loadBlock88Grey lines i)]
  | .h1v1 =>
      [(0, loadBlock88 lines i 0 0), (1, loadBlock88 lines i 0 1),
        (2, loadBlock88 lines i 0 2)]
  | .h2v1 =>
      [(0, loadBlock88 lines (i * 2 + 0) 0 0),
        (0, loadBlock88 lines (i * 2 + 1) 0 0),
        (1, loadBlock1688 lines i 1), (2, loadBlock1688 lines i 2)]
  | .h2v2 =>
      [(0, loadBlock88 lines (i * 2 + 0) 0 0),
        (0, loadBlock88 lines (i * 2 + 1) 0 0),
        (0, loadBlock88 lines (i * 2 + 0) 1 0),
        (0, loadBlock88 lines (i * 2 + 1) 1 0),
        (1, loadBlock168 lines i 1), (2, loadBlock168 lines i 2)]

-- ======================================================= coding the lines

section Coding

variable (q : Setting)

/-- The quantizers of a component. -/
def Setting.quantOf (componentNum : Nat) : List Nat :=
  if 0 < componentNum then q.quantC else q.quant

/-- `code_block` -/
def codeBlock (componentNum : Nat) (samples : List Int32) (e : BlockCoder) :
    BlockCoder :=
  let cs := loadQuantizedCoefficients (q.quantOf componentNum) (dct2d samples)
  let dc := if componentNum = 0 then q.dc else q.dcC
  let ac := if componentNum = 0 then q.ac else q.acC
  let r := codeCoefficientsPassTwo dc.table ac.table
    (e.lastDcVal componentNum) cs e.writer
  { lastDcVal := setDc e.lastDcVal componentNum r.1, writer := r.2 }

/-- Blocks one after another. -/
def codeBlocks (bs : List (Nat × List Int32)) (e : BlockCoder) : BlockCoder :=
  bs.foldl (fun e b => codeBlock q b.1 b.2 e) e

/-- `process_mcu_row` -/
def processMcuRow (e : JpegEncoder) : JpegEncoder :=
  { e with
    toBlockCoder := (List.range (mcusPerRow e.sub e.imageX)).foldl
      (fun c i => codeBlocks q (mcuBlocks e.sub e.mcuLines i) c)
      e.toBlockCoder }

/-- The pixels of a line, as many bytes each as there are components. -/
def translated (sub : Subsampling) (imageX imageBpp : Nat) (src : List UInt8) :
    List UInt8 :=
  if sub.numComponents = 1 then
    if imageBpp = 3 then rgbToY src imageX
    else (List.range imageX).map fun i => src.getD i 0
  else
    if imageBpp = 3 then rgbToYcc src imageX else yToYcc src imageX

/-- The line, with its last pixel repeated up to the end of the last
MCU. -/
def filledLine (sub : Subsampling) (imageX : Nat) (dst : List UInt8) :
    List UInt8 :=
  let bplXlt := imageX * sub.numComponents
  let last := (List.range sub.numComponents).map fun c =>
    dst.getD (bplXlt - sub.numComponents + c) 0
  dst ++ (List.range (imageXMcu sub imageX - imageX)).flatMap fun _ => last

/-- `load_mcu` -/
def loadMcu (src : List UInt8) (e : JpegEncoder) : JpegEncoder :=
  let line := filledLine e.sub e.imageX
    (translated e.sub e.imageX e.imageBpp src)
  let e := { e with
    mcuLines := e.mcuLines.set e.mcuYOfs line
    mcuYOfs := e.mcuYOfs + 1 }
  if e.mcuYOfs = e.sub.mcuY then { processMcuRow q e with mcuYOfs := 0 }
  else e

/-- The last line takes the place of the ones that are missing in the
last row of MCUs. -/
def repeatLastLine (e : JpegEncoder) : JpegEncoder :=
  { e with mcuLines := (List.range e.mcuLines.length).map fun i =>
      if e.mcuYOfs ≤ i then e.mcuLines.getD (e.mcuYOfs - 1) []
      else e.mcuLines.getD i [] }

/-- `process_end_of_image` -/
def processEndOfImage (e : JpegEncoder) : JpegEncoder :=
  let e := if e.mcuYOfs ≠ 0 then processMcuRow q (repeatLastLine e) else e
  let w := e.writer |> putBits 0x7F 7 |> emitMarker 0xD9 |> flushOutputBuffer
  let w := if w.succeeded then
      let r := w.stream.putBuf none
      { w with succeeded := r.1, stream := r.2 }
    else w
  { e with writer := w, passNum := e.passNum + 1 }

/-- `process_scanline`; no line is the end of the image. -/
def processScanline (scanline : Option (List UInt8)) (e : JpegEncoder) :
    Bool × JpegEncoder :=
  if e.passNum < 1 ∨ 2 < e.passNum then (false, e)
  else
    let e := if e.writer.succeeded then
        match scanline with
        | none => processEndOfImage q e
        | some src => loadMcu q src e
      else e
    (e.writer.succeeded, e)

end Coding

-- ===================================================== opening an image

/-- The quantizers for an image's quality. -/
def Statics.forQuality (quality : Nat) (st : Statics) : Statics :=
  if st.lastQuality ≠ quality then
    { st with
      lastQuality := quality
      tables := { st.tables with
        quant := computeQuantTable quality sStdLumQuant
        quantC := computeQuantTable quality sStdCromaQuant } }
  else st

/-- The Huffman tables. -/
def Statics.withHuffman (st : Statics) : Statics :=
  if ¬ st.huffInitialized then
    { st with
      huffInitialized := true
      tables := { st.tables with
        dc := dcLum, ac := acLum, dcC := dcChroma, acC := acChroma } }
  else st

/-- The static data at the start of the program. -/
def Statics.boot : Statics where
  lastQuality := 0
  huffInitialized := false
  tables :=
    let none : Huff := ⟨List.replicate 16 0, List.replicate 256 0⟩
    ⟨List.replicate 64 0, List.replicate 64 0, none, none, none, none⟩

/-- `jpg_open`; `memory` is what `jpge_malloc` returns, with what is in
it. -/
def jpgOpen (stream : MemoryStream) (params : Params)
    (xRes yRes srcChannels : Nat) (memory : Option (Nat → UInt8))
    (st : Statics) : Option JpegEncoder × Statics :=
  match memory with
  | none => (none, st)
  | some byte =>
      let sub := params.subsampling
      let bplMcu := imageXMcu sub xRes * sub.numComponents
      let lines := (List.range sub.mcuY).map fun i =>
        (List.range bplMcu).map fun j => byte (i * bplMcu + j)
      let st := (st.forQuality params.quality).withHuffman
      let w := emitHeader sub xRes yRes st.tables
        { stream := stream, succeeded := true, outBuf := [], bitBuffer := 0
          bitsIn := 0 }
      let e : JpegEncoder :=
        { writer := w, params := params, imageX := xRes, imageY := yRes
          imageBpp := srcChannels, mcuLines := lines, mcuYOfs := 0
          lastDcVal := fun _ => 0, passNum := 2 }
      (if w.succeeded then some e else none, st)

/-- `jpeg_encoder::init` -/
def JpegEncoder.init (stream : MemoryStream) (width height srcChannels : Nat)
    (params : Params) (memory : Option (Nat → UInt8)) (st : Statics) :
    Option JpegEncoder × Statics :=
  if width < 1 ∨ height < 1
      ∨ srcChannels ≠ 1 ∧ srcChannels ≠ 3 ∧ srcChannels ≠ 4
      ∨ ¬ params.check then (none, st)
  else jpgOpen stream params width height srcChannels memory st

-- ======================================================== whole images

/-- What the three calls of `malloc` return while a frame is encoded; of
the last two, also what is in the memory. -/
structure Mallocs where
  jpgBuf : Bool
  mcuLines : Option (Nat → UInt8)
  line : Option (Nat → UInt8)

/-- The loop of `convert_image` over the lines. -/
def scanLines (q : Setting) (src : List UInt8) (format : PixFormat)
    (width : Nat) : List Nat → (line : List UInt8) → JpegEncoder →
    Option JpegEncoder
  | [], _, e => some e
  | i :: is, line, e =>
      let line := convertLineFormat src format line width i
      let r := processScanline q (some line) e
      if r.1 then scanLines q src format width is line r.2 else none

/-- `convert_image` -/
def convertImage (m : Mallocs) (src : List UInt8) (width height : Nat)
    (format : PixFormat) (quality : Nat) (stream : MemoryStream)
    (st : Statics) : Option MemoryStream × Statics :=
  let numChannels := if format = .grayscale then 1 else 3
  let subsampling : Subsampling := if format = .grayscale then .yOnly else .h2v2
  let quality := if quality = 0 then 1 else if 100 < quality then 100
    else quality
  match JpegEncoder.init stream width height numChannels
    ⟨quality, subsampling⟩ m.mcuLines st with
  | (none, st) => (none, st)
  | (some e, st) =>
      match m.line with
      | none => (none, st)
      | some byte =>
          let line := (List.range (width * numChannels)).map byte
          match scanLines st.tables src format width (List.range height) line
            e with
          | none => (none, st)
          | some e =>
              let r := processScanline st.tables none e
              (if r.1 then some r.2.writer.stream else none, st)

/-- The size of the buffer that `fmt2jpg` allocates. -/
def jpgBufLen : Nat := 128 * 1024

/-- `fmt2jpg`: what `*out` points to, `*out_len` bytes of it. -/
def fmt2jpg (m : Mallocs) (src : List UInt8) (width height : UInt16)
    (format : PixFormat) (quality : UInt8) (st : Statics) :
    Option (List UInt8) × Statics :=
  if ¬ m.jpgBuf then (none, st)
  else
    let r := convertImage m src width.toNat height.toNat format quality.toNat
      ⟨[], jpgBufLen⟩ st
    (r.1.map MemoryStream.outBuf, r.2)

end SitNChow.Jpeg
