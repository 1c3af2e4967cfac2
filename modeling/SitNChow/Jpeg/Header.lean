/-
The markers the JPEG encoder begins a file with. Each `emit_` function is
the source's sequence of bytes; beside it stands the segment it emits.
-/
import SitNChow.Jpeg.Coder

namespace SitNChow.Jpeg

open Kit Kit.Bits

/-- `subsampling_t` -/
inductive Subsampling where
  | yOnly | h1v1 | h2v1 | h2v2
  deriving DecidableEq

/-- `m_num_components` -/
def Subsampling.numComponents : Subsampling → Nat
  | yOnly => 1
  | _ => 3

/-- `m_comp_h_samp[0]`; the ones of the other components are 1. -/
def Subsampling.hSamp : Subsampling → Nat
  | yOnly | h1v1 => 1
  | h2v1 | h2v2 => 2

/-- `m_comp_v_samp[0]`; the ones of the other components are 1. -/
def Subsampling.vSamp : Subsampling → Nat
  | h2v2 => 2
  | _ => 1

/-- `m_mcu_x` -/
def Subsampling.mcuX (s : Subsampling) : Nat := s.hSamp * 8

/-- `m_mcu_y` -/
def Subsampling.mcuY (s : Subsampling) : Nat := s.vSamp * 8

/-- The static tables of the encoder in use: the quantizers, and the rows
of `m_huff_bits` and `m_huff_val`. -/
structure Setting where
  quant : List Nat
  quantC : List Nat
  dc : Huff
  dcC : Huff
  ac : Huff
  acC : Huff

/-- Bytes one after another. -/
def emitBytes (bytes : List UInt8) (w : Writer) : Writer :=
  bytes.foldl (fun w b => emitByte b w) w

/-- `emit_jfif_app0` -/
def emitJfifApp0 (w : Writer) : Writer :=
  w |> emitMarker 0xE0 |> emitWord (2 + 4 + 1 + 2 + 1 + 2 + 2 + 1 + 1)
    |> emitByte 0x4A |> emitByte 0x46 |> emitByte 0x49 |> emitByte 0x46
    |> emitByte 0 |> emitByte 1 |> emitByte 1 |> emitByte 0
    |> emitWord 1 |> emitWord 1 |> emitByte 0 |> emitByte 0

/-- A turn of the loop of `emit_dqt`. -/
def emitQuant (i : Nat) (quant : List Nat) (w : Writer) : Writer :=
  w |> emitMarker 0xDB |> emitWord (64 + 1 + 2) |> emitByte (UInt8.ofNat i)
    |> emitBytes (quant.map UInt8.ofNat)

/-- `emit_dqt` -/
def emitDqt (sub : Subsampling) (q : Setting) (w : Writer) : Writer :=
  let w := emitQuant 0 q.quant w
  if sub.numComponents = 3 then emitQuant 1 q.quantC w else w

/-- The sampling factors of a component. -/
def Subsampling.samp (sub : Subsampling) (i : Nat) : Nat :=
  if i = 0 then (sub.hSamp <<< 4) + sub.vSamp else (1 <<< 4) + 1

/-- `emit_sof` -/
def emitSof (sub : Subsampling) (imageX imageY : Nat) (w : Writer) : Writer :=
  let w := w |> emitMarker 0xC0 |> emitWord (3 * sub.numComponents + 2 + 5 + 1)
    |> emitByte 8 |> emitWord imageY |> emitWord imageX
    |> emitByte (UInt8.ofNat sub.numComponents)
  (List.range sub.numComponents).foldl
    (fun w i => w |> emitByte (UInt8.ofNat (i + 1))
      |> emitByte (UInt8.ofNat (sub.samp i))
      |> emitByte (if 0 < i then 1 else 0)) w

/-- `emit_dht` -/
def emitDht (h : Huff) (index : Nat) (acFlag : Bool) (w : Writer) : Writer :=
  w |> emitMarker 0xC4 |> emitWord (h.bits.sum + 2 + 1 + 16)
    |> emitByte (UInt8.ofNat (index + (acFlag.toNat <<< 4)))
    |> emitBytes (h.bits.map UInt8.ofNat) |> emitBytes (h.val.map UInt8.ofNat)

/-- `emit_dhts` -/
def emitDhts (sub : Subsampling) (q : Setting) (w : Writer) : Writer :=
  let w := w |> emitDht q.dc 0 false |> emitDht q.ac 0 true
  if sub.numComponents = 3 then
    w |> emitDht q.dcC 1 false |> emitDht q.acC 1 true
  else w

/-- `emit_sos` -/
def emitSos (sub : Subsampling) (w : Writer) : Writer :=
  let w := w |> emitMarker 0xDA |> emitWord (2 * sub.numComponents + 2 + 1 + 3)
    |> emitByte (UInt8.ofNat sub.numComponents)
  let w := (List.range sub.numComponents).foldl
    (fun w i => w |> emitByte (UInt8.ofNat (i + 1))
      |> emitByte (UInt8.ofNat (if i = 0 then (0 <<< 4) + 0
        else (1 <<< 4) + 1))) w
  w |> emitByte 0 |> emitByte 63 |> emitByte 0

/-- All markers at the beginning of the file. -/
def emitHeader (sub : Subsampling) (imageX imageY : Nat) (q : Setting)
    (w : Writer) : Writer :=
  w |> emitMarker 0xD8 |> emitJfifApp0 |> emitDqt sub q
    |> emitSof sub imageX imageY |> emitDhts sub q |> emitSos sub

-- ============================================================ the segments

/-- A marker with its length and its content. -/
def segment (marker : UInt8) (data : List UInt8) : List UInt8 :=
  [0xFF, marker, UInt8.ofNat ((data.length + 2) / 256),
    UInt8.ofNat ((data.length + 2) % 256)] ++ data

def wordBytes (i : Nat) : List UInt8 :=
  [UInt8.ofNat (i / 256), UInt8.ofNat (i % 256)]

def app0Data : List UInt8 :=
  [0x4A, 0x46, 0x49, 0x46, 0, 1, 1, 0, 0, 1, 0, 1, 0, 0]

def quantData (i : Nat) (quant : List Nat) : List UInt8 :=
  UInt8.ofNat i :: quant.map UInt8.ofNat

def sofData (sub : Subsampling) (imageX imageY : Nat) : List UInt8 :=
  8 :: wordBytes imageY ++ wordBytes imageX
    ++ UInt8.ofNat sub.numComponents
    :: (List.range sub.numComponents).flatMap fun i =>
      [UInt8.ofNat (i + 1), UInt8.ofNat (sub.samp i), if 0 < i then 1 else 0]

def dhtData (h : Huff) (index : Nat) (acFlag : Bool) : List UInt8 :=
  UInt8.ofNat (index + (acFlag.toNat <<< 4))
    :: (h.bits.map UInt8.ofNat ++ h.val.map UInt8.ofNat)

def sosData (sub : Subsampling) : List UInt8 :=
  UInt8.ofNat sub.numComponents
    :: ((List.range sub.numComponents).flatMap fun i =>
      [UInt8.ofNat (i + 1), UInt8.ofNat (if i = 0 then 0 else 0x11)])
      ++ [0, 63, 0]

/-- The segments behind the start marker. -/
def headerSegments (sub : Subsampling) (imageX imageY : Nat) (q : Setting) :
    List (UInt8 × List UInt8) :=
  let c := sub.numComponents = 3
  [(0xE0, app0Data), (0xDB, quantData 0 q.quant)]
    ++ (if c then [(0xDB, quantData 1 q.quantC)] else [])
    ++ [(0xC0, sofData sub imageX imageY), (0xC4, dhtData q.dc 0 false),
      (0xC4, dhtData q.ac 0 true)]
    ++ (if c then [(0xC4, dhtData q.dcC 1 false), (0xC4, dhtData q.acC 1 true)]
      else [])
    ++ [(0xDA, sosData sub)]

/-- All the encoder emits before the coded data. -/
def headerBytes (sub : Subsampling) (imageX imageY : Nat) (q : Setting) :
    List UInt8 :=
  [0xFF, 0xD8] ++ (headerSegments sub imageX imageY q).flatMap fun s =>
    segment s.1 s.2

-- ================================================ what is emitted

variable {room : Nat} {bs : List UInt8} {w : Writer} {sub : Subsampling}
  {q : Setting}

/-- Further bytes are written behind those so far. -/
theorem Emitted.bytes (h : Emitted room bs w) (bytes : List UInt8) :
    Emitted room (bs ++ bytes) (emitBytes bytes w) := by
  induction bytes generalizing bs w with
  | nil =>
      rw [List.append_nil]
      exact h
  | cons b bytes ih =>
      have := ih (h.byte b)
      rwa [List.append_assoc] at this

/-- The bytes a fold emits, one turn after another. -/
theorem Emitted.fold {α : Type} (f : α → List UInt8) (g : α → Writer → Writer)
    (hg : ∀ a bs w, Emitted room bs w → Emitted room (bs ++ f a) (g a w))
    (xs : List α) (h : Emitted room bs w) :
    Emitted room (bs ++ xs.flatMap f) (xs.foldl (fun w a => g a w) w) := by
  induction xs generalizing bs w with
  | nil =>
      rw [List.flatMap_nil, List.append_nil]
      exact h
  | cons x xs ih =>
      have := ih (hg x bs w h)
      rwa [List.append_assoc] at this

/-- `emit_jfif_app0` writes its segment. -/
theorem Emitted.app0 (h : Emitted room bs w) :
    Emitted room (bs ++ segment 0xE0 app0Data) (emitJfifApp0 w) := by
  have := (((((((((((((h.marker 0xE0).word 16).byte 0x4A).byte 0x46).byte
    0x49).byte 0x46).byte 0).byte 1).byte 1).byte 0).word 1).word 1).byte
    0).byte 0
  simp only [List.append_assoc] at this
  exact this

/-- `emit_dqt` writes a segment for a table of 64 quantizers. -/
theorem Emitted.quant (h : Emitted room bs w) (i : Nat) {quant : List Nat}
    (hlen : quant.length = 64) :
    Emitted room (bs ++ segment 0xDB (quantData i quant))
      (emitQuant i quant w) := by
  have := (((h.marker 0xDB).word 67).byte (UInt8.ofNat i)).bytes
    (quant.map UInt8.ofNat)
  rw [segment, quantData, List.length_cons, List.length_map, hlen]
  simp only [List.append_assoc] at this
  exact this

/-- `emit_sof` writes the segment of the frame. -/
theorem Emitted.sof (h : Emitted room bs w) (sub : Subsampling)
    (imageX imageY : Nat) :
    Emitted room (bs ++ segment 0xC0 (sofData sub imageX imageY))
      (emitSof sub imageX imageY w) := by
  have := ((((((h.marker 0xC0).word (3 * sub.numComponents + 2 + 5 + 1)).byte
    8).word imageY).word imageX).byte (UInt8.ofNat sub.numComponents)).fold
    (fun i => [UInt8.ofNat (i + 1), UInt8.ofNat (sub.samp i),
      if 0 < i then 1 else 0])
    (fun i w => w |> emitByte (UInt8.ofNat (i + 1))
      |> emitByte (UInt8.ofNat (sub.samp i))
      |> emitByte (if 0 < i then 1 else 0))
    (fun i bs w hw => by
      have := ((hw.byte (UInt8.ofNat (i + 1))).byte
        (UInt8.ofNat (sub.samp i))).byte (if 0 < i then 1 else 0)
      simp only [List.append_assoc] at this
      exact this)
    (List.range sub.numComponents)
  have hlen : (sofData sub imageX imageY).length + 2
      = 3 * sub.numComponents + 2 + 5 + 1 := by
    cases sub <;> rfl
  rw [segment, hlen]
  simp only [List.append_assoc] at this
  exact this

/-- `emit_dht` writes a segment for a table: the counts, then the symbols. -/
theorem Emitted.dht (h : Emitted room bs w) {huff : Huff}
    (wf : WellFormed huff.bits huff.val) (index : Nat) (acFlag : Bool) :
    Emitted room (bs ++ segment 0xC4 (dhtData huff index acFlag))
      (emitDht huff index acFlag w) := by
  have := ((((h.marker 0xC4).word (huff.bits.sum + 2 + 1 + 16)).byte
    (UInt8.ofNat (index + (acFlag.toNat <<< 4)))).bytes
    (huff.bits.map UInt8.ofNat)).bytes (huff.val.map UInt8.ofNat)
  have hlen : (dhtData huff index acFlag).length + 2
      = huff.bits.sum + 2 + 1 + 16 := by
    rw [dhtData, List.length_cons, List.length_append, List.length_map,
      List.length_map, wf.sizes, wf.total]
    omega
  rw [segment, hlen]
  simp only [List.append_assoc] at this
  exact this

/-- `emit_sos` writes the segment of the scan. -/
theorem Emitted.sos (h : Emitted room bs w) (sub : Subsampling) :
    Emitted room (bs ++ segment 0xDA (sosData sub)) (emitSos sub w) := by
  have := ((((((h.marker 0xDA).word (2 * sub.numComponents + 2 + 1 + 3)).byte
    (UInt8.ofNat sub.numComponents)).fold
    (fun i => [UInt8.ofNat (i + 1), UInt8.ofNat (if i = 0 then 0 else 0x11)])
    (fun i w => w |> emitByte (UInt8.ofNat (i + 1))
      |> emitByte (UInt8.ofNat (if i = 0 then (0 <<< 4) + 0
        else (1 <<< 4) + 1)))
    (fun i bs w hw => by
      have := (hw.byte (UInt8.ofNat (i + 1))).byte
        (UInt8.ofNat (if i = 0 then 0 else 0x11))
      simp only [List.append_assoc] at this
      exact this)
    (List.range sub.numComponents)).byte 0).byte 63).byte 0
  have hlen : (sosData sub).length + 2
      = 2 * sub.numComponents + 2 + 1 + 3 := by
    clear this
    cases sub <;> rfl
  rw [segment, hlen]
  simp only [List.append_assoc] at this
  exact this

/-- Quantizers of one byte, and the standard Huffman tables. -/
structure Setting.Valid (q : Setting) : Prop where
  quant : q.quant.length = 64 ∧ ∀ x ∈ q.quant, 0 < x ∧ x < 256
  quantC : q.quantC.length = 64 ∧ ∀ x ∈ q.quantC, 0 < x ∧ x < 256
  dc : q.dc = dcLum
  dcC : q.dcC = dcChroma
  ac : q.ac = acLum
  acC : q.acC = acChroma

/-- The header is the markers' segments, one behind the other. -/
theorem Emitted.header (h : Emitted room bs w) (hq : q.Valid)
    (imageX imageY : Nat) :
    Emitted room (bs ++ headerBytes sub imageX imageY q)
      (emitHeader sub imageX imageY q w) := by
  have hquant : ∀ {bs w}, Emitted room bs w →
      Emitted room (bs ++ segment 0xDB (quantData 0 q.quant)
        ++ if sub.numComponents = 3
          then segment 0xDB (quantData 1 q.quantC) else [])
        (emitDqt sub q w) := by
    intro bs w h
    rw [emitDqt]
    split
    · exact (h.quant 0 hq.quant.1).quant 1 hq.quantC.1
    · rw [List.append_nil]
      exact h.quant 0 hq.quant.1
  have hhuff : ∀ {bs w}, Emitted room bs w →
      Emitted room (bs ++ segment 0xC4 (dhtData q.dc 0 false)
        ++ segment 0xC4 (dhtData q.ac 0 true)
        ++ if sub.numComponents = 3
          then segment 0xC4 (dhtData q.dcC 1 false)
            ++ segment 0xC4 (dhtData q.acC 1 true) else [])
        (emitDhts sub q w) := by
    intro bs w h
    rw [emitDhts, hq.dc, hq.ac, hq.dcC, hq.acC]
    have hlum := (h.dht codesDc_dcLum.wellFormed 0 false).dht
      codesAc_acLum.wellFormed 0 true
    split
    · rw [← List.append_assoc]
      exact (hlum.dht codesDc_dcChroma.wellFormed 1 false).dht
        codesAc_acChroma.wellFormed 1 true
    · rw [List.append_nil]
      exact hlum
  have := (hhuff ((hquant (h.marker 0xD8).app0).sof sub imageX imageY)).sos sub
  rw [headerBytes, headerSegments, emitHeader]
  split at this
  · simpa [*] using this
  · simpa [*] using this

end SitNChow.Jpeg
