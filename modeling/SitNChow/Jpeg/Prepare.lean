/-
`jd_prepare`: the decoder reads the segments of a file up to the start of
its coded data, and loads the tables in them. The loop over the segments
is `prepareLoop`; it takes at least four bytes a turn, so a turn for every
byte of the file is enough.
-/
import SitNChow.Jpeg.Decoder
import SitNChow.Jpeg.Header

namespace SitNChow.Jpeg

open Kit Kit.Bits

/-- `Ipsf` -/
def ipsf : List Nat := [
  8192, 11362, 10703, 9632, 8192, 6436, 4433, 2260,
  11362, 15760, 14846, 13361, 11362, 8927, 6149, 3134,
  10703, 14846, 13984, 12585, 10703, 8409, 5792, 2953,
  9632, 13361, 12585, 11326, 9632, 7568, 5213, 2657,
  8192, 11362, 10703, 9632, 8192, 6436, 4433, 2260,
  6436, 8927, 8409, 7568, 6436, 5057, 3483, 1775,
  4433, 6149, 5792, 5213, 4433, 3483, 2399, 1223,
  2260, 3134, 2953, 2657, 2260, 1775, 1223, 623]

/-- `JDEC` while the segments are read: the fields of `Jdec`, the size of
the memory pool, and the number of bytes read so far. -/
structure Prep where
  jd : Jdec Unit
  szPool : Nat
  ofs : Nat

/-- `alloc_pool`, of which only the size that is left matters. -/
def allocPool (ndata szPool : Nat) : Except JResult Nat :=
  let ndata := (ndata + 3) / 4 * 4
  if ndata ≤ szPool then .ok (szPool - ndata) else .error .mem1

/-- A byte of a segment. -/
def byteAt (data : List UInt8) (i : Nat) : Nat := (data.getD i 0).toNat

/-- `LDB_WORD` -/
def ldbWord (data : List UInt8) (i : Nat) : Nat :=
  byteAt data i * 256 + byteAt data (i + 1)

/-- The table of a quantizer segment, in raster order, scaled. -/
def quantTable (quant : List Nat) : List Int :=
  (List.range 64).foldl
    (fun pb i => pb.set (zig.getD i 0)
      (quant.getD i 0 * ipsf.getD (zig.getD i 0) 0 : Nat))
    (List.replicate 64 0)

/-- Each quantizer gets to its own place. -/
theorem quantTable_getD (quant : List Nat) {n : Nat} (hn : n < 64) :
    (quantTable quant).getD (zig.getD n 0) 0
      = (quant.getD n 0 * ipsf.getD (zig.getD n 0) 0 : Nat) := by
  suffices h : ∀ k ≤ 64, ∀ pb, (List.range k).foldl
      (fun pb i => pb.set (zig.getD i 0)
        (quant.getD i 0 * ipsf.getD (zig.getD i 0) 0 : Nat))
      (List.replicate 64 (0 : Int)) = pb → pb.length = 64 ∧ ∀ n < k,
        pb.getD (zig.getD n 0) 0
          = (quant.getD n 0 * ipsf.getD (zig.getD n 0) 0 : Nat) from
    (h 64 (Nat.le_refl 64) _ rfl).2 n hn
  intro k
  induction k with
  | zero =>
      rintro - pb rfl
      exact ⟨List.length_replicate, fun n hn => absurd hn (Nat.not_lt_zero n)⟩
  | succ k ih =>
      rintro hk pb rfl
      obtain ⟨hlen, hget⟩ := ih (by omega) _ rfl
      rw [List.range_succ, List.foldl_append, List.foldl_cons, List.foldl_nil]
      refine ⟨by rw [List.length_set, hlen], fun n hn => ?_⟩
      rw [List.getD_eq_getElem _ _ (by
        rw [List.length_set, hlen]
        exact zig_lt n (by omega)), List.getElem_set]
      by_cases he : n = k
      · subst he
        rw [if_pos rfl]
      · have hne : zig.getD k 0 ≠ zig.getD n 0 := by
          intro heq
          have hidx := congrArg zig.idxOf heq
          rw [zig_idxOf k (by omega), zig_idxOf n (by omega)] at hidx
          exact he hidx.symm
        have := hget n (by omega)
        rw [List.getD_eq_getElem _ _ (by
          rw [hlen]
          exact zig_lt n (by omega))] at this
        rw [if_neg hne, this]

/-- `create_qt_tbl`. Every turn takes 65 bytes. -/
def createQtTbl : (turns : Nat) → List UInt8 → Prep → Except JResult Prep
  | 0, _, p => .ok p
  | n + 1, data, p => do
      if data.length = 0 then return p
      if data.length < 65 then throw .fmt1
      let d := byteAt data 0
      if d &&& 0xF0 ≠ 0 then throw .fmt1
      let i := d &&& 3
      let szPool ← allocPool (64 * 4) p.szPool
      let pb := quantTable ((data.drop 1).map UInt8.toNat)
      createQtTbl n (data.drop 65) { p with
        szPool := szPool
        jd := { p.jd with
          qttbl := fun k => if k = i then some pb else p.jd.qttbl k } }

/-- The code words that are rebuilt from the numbers of words of each
length, in 16 bits. -/
def buildCodes : List Nat → (hc : Nat) → List Nat
  | [], _ => []
  | b :: bs, hc =>
      (List.range b).map (fun i => (hc + i) % 65536)
        ++ buildCodes bs ((hc + b) % 65536 * 2 % 65536)

/-- `create_huffman_tbl`. Every turn takes at least 17 bytes. -/
def createHuffmanTbl : (turns : Nat) → List UInt8 → Prep → Except JResult Prep
  | 0, _, p => .ok p
  | n + 1, data, p => do
      if data.length = 0 then return p
      if data.length < 17 then throw .fmt1
      let d := byteAt data 0
      if d &&& 0xEE ≠ 0 then throw .fmt1
      let cls := d >>> 4
      let num := d &&& 0x0F
      let szPool ← allocPool 16 p.szPool
      let pb := ((data.drop 1).take 16).map UInt8.toNat
      let np := pb.sum
      let szPool ← allocPool (np * 2) szPool
      let rest := data.drop 17
      if rest.length < np then throw .fmt1
      let szPool ← allocPool np szPool
      let pd := (rest.take np).map UInt8.toNat
      if cls = 0 ∧ pd.any (11 < ·) then throw .fmt1
      let tbl : HuffTbl := ⟨pb, buildCodes pb 0, pd⟩
      createHuffmanTbl n (rest.drop np) { p with
        szPool := szPool
        jd := { p.jd with
          huff := fun i j => if i = num ∧ j = cls then some tbl
            else p.jd.huff i j } }

/-- A turn of the loop over the components in a frame segment. -/
def sofComponent (data : List UInt8) (i : Nat) (jd : Jdec Unit) :
    Except JResult (Jdec Unit) := do
  let b := byteAt data (7 + 3 * i)
  let jd ← if i = 0 then do
      if b ≠ 0x11 ∧ b ≠ 0x22 ∧ b ≠ 0x21 then throw .fmt3
      pure { jd with msx := b >>> 4, msy := b &&& 15 }
    else do
      if b ≠ 0x11 then throw .fmt3
      pure jd
  let q := byteAt data (8 + 3 * i)
  if 3 < q then throw .fmt3
  return { jd with qtid := fun k => if k = i then q else jd.qtid k }

/-- A frame segment (`SOF0`). -/
def parseSof (data : List UInt8) (p : Prep) : Except JResult Prep := do
  let jd := { p.jd with
    width := ldbWord data 3, height := ldbWord data 1, ncomp := byteAt data 5 }
  if jd.ncomp ≠ 3 ∧ jd.ncomp ≠ 1 then throw .fmt3
  let jd ← (List.range jd.ncomp).foldlM (fun jd i => sofComponent data i jd) jd
  return { p with jd := jd }

/-- A turn of the loop over the components in a scan segment. -/
def sosComponent (data : List UInt8) (jd : Jdec Unit) (i : Nat) :
    Except JResult Unit := do
  let b := byteAt data (2 + 2 * i)
  if b ≠ 0x00 ∧ b ≠ 0x11 then throw .fmt3
  let n := if i ≠ 0 then 1 else 0
  if (jd.huff n 0).isNone ∨ (jd.huff n 1).isNone then throw .fmt1
  if (jd.qttbl (jd.qtid i)).isNone then throw .fmt1

/-- A scan segment (`SOS`): checks, and the working buffers; `szYuv` is
`sizeof (jd_yuv_t)`. -/
def parseSos (szYuv : Nat) (data : List UInt8) (p : Prep) : Except JResult Prep := do
  if p.jd.width = 0 ∨ p.jd.height = 0 then throw .fmt1
  if byteAt data 0 ≠ p.jd.ncomp then throw .fmt3
  (List.range p.jd.ncomp).forM (sosComponent data p.jd)
  let n := p.jd.msy * p.jd.msx
  if n = 0 then throw .fmt1
  let len := n * 64 * 2 + 64
  let szPool ← allocPool (if len < 256 then 256 else len) p.szPool
  let szPool ← allocPool ((n + 2) * 64 * szYuv) szPool
  return { p with szPool := szPool }

/-- The input function: as many bytes as there are, of those that are
wanted. -/
def infunc (n : Nat) (device : List UInt8) : List UInt8 × List UInt8 :=
  (device.take n, device.drop n)

/-- The content of a segment is loaded into the input buffer. -/
def loadSegment (szbuf len : Nat) (device : List UInt8) :
    Except JResult (List UInt8 × List UInt8) :=
  if szbuf < len then .error .mem2
  else
    let r := infunc len device
    if r.1.length ≠ len then .error .inp else .ok r

/-- The segments of coding standards that are not supported, and a file
that ends before its scan. -/
def unsupported : List Nat :=
  [0xC1, 0xC2, 0xC3, 0xC5, 0xC6, 0xC7, 0xC9, 0xCA, 0xCB, 0xCD, 0xCE, 0xCF,
    0xD9]

/-- A segment before the scan. An unknown one is skipped. -/
def parseSegment (szbuf marker len : Nat) (p : Prep) (device : List UInt8) :
    Except JResult (Prep × List UInt8) :=
  if marker = 0xC0 then do
    let (data, device) ← loadSegment szbuf len device
    return (← parseSof data p, device)
  else if marker = 0xDD then do
    let (data, device) ← loadSegment szbuf len device
    return ({ p with jd := { p.jd with nrst := ldbWord data 0 } }, device)
  else if marker = 0xC4 then do
    let (data, device) ← loadSegment szbuf len device
    return (← createHuffmanTbl len data p, device)
  else if marker = 0xDB then do
    let (data, device) ← loadSegment szbuf len device
    return (← createQtTbl len data p, device)
  else if unsupported.contains marker then .error .fmt3
  else
    let r := infunc len device
    if r.1.length ≠ len then .error .inp else .ok (p, r.2)

/-- The stream behind the scan's header: the reads go on at a multiple of
the buffer's size. -/
def alignStream (szbuf ofs : Nat) (device : List UInt8) : Stream :=
  let ofs := ofs % szbuf
  if ofs ≠ 0 then
    let r := infunc (szbuf - ofs) device
    { inbuf := r.1, device := r.2 }
  else { inbuf := [], device := device }

/-- The loop over the segments. -/
def prepareLoop (szbuf szYuv : Nat) : (turns : Nat) → Prep → List UInt8 →
    Except JResult (Jdec Unit × Stream)
  | 0, _, _ => .error .inp
  | n + 1, p, device => do
      let (seg, device) := infunc 4 device
      if seg.length ≠ 4 then throw .inp
      let (marker, len, device) ← if ldbWord seg 0 = 0xFFFF then do
          let (more, device) := infunc 1 device
          if more.length ≠ 1 then throw .inp
          pure (ldbWord (seg ++ more) 1, ldbWord (seg ++ more) 3, device)
        else pure (ldbWord seg 0, ldbWord seg 2, device)
      if len ≤ 2 ∨ marker >>> 8 ≠ 0xFF then throw .fmt1
      let len := len - 2
      let p := { p with ofs := p.ofs + 4 + len }
      let marker := marker &&& 0xFF
      if marker = 0xDA then do
        let (data, device) ← loadSegment szbuf len device
        let p ← parseSos szYuv data p
        return (p.jd, alignStream szbuf p.ofs device)
      else do
        let (p, device) ← parseSegment szbuf marker len p device
        prepareLoop szbuf szYuv n p device

/-- The search for the start marker. -/
def findSoi : List UInt8 → (marker ofs : Nat) →
    Except JResult (Nat × List UInt8)
  | [], _, _ => .error .inp
  | b :: device, marker, ofs =>
      let marker := (marker <<< 8 ||| b.toNat) % 65536
      if marker = 0xFFD8 then .ok (ofs + 1, device)
      else findSoi device marker (ofs + 1)

/-- `JDEC`, cleared. -/
def Jdec.blank : Jdec Unit where
  input := ()
  huff _ _ := none
  qttbl _ := none
  qtid _ := 0
  dcv _ := 0
  msx := 0
  msy := 0
  ncomp := 0
  nrst := 0
  width := 0
  height := 0

/-- `jd_prepare`; `start` is the reader's state at the beginning of a
stream. -/
def jdPrepare {ι : Type} (szbuf szYuv : Nat) (start : Stream → ι)
    (device : List UInt8) (szPool : Nat) : Except JResult (Jdec ι) := do
  let szPool ← allocPool szbuf szPool
  let (ofs, device) ← findSoi device 0 0
  let (jd, stream) ← prepareLoop szbuf szYuv device.length
    ⟨Jdec.blank, szPool, ofs⟩ device
  return { jd with input := start stream }

/-- The basic reader at the beginning of a stream: no byte is current
yet. -/
def Basic.start (s : Stream) : Basic := { toStream := s, cur := 0, dbit := 0 }

end SitNChow.Jpeg
