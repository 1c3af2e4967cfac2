/-
The decoder accepts the files of the encoder: `jd_prepare` reads the
header to its end and then has the size of the image and the tables of
every component (`jdPrepare_header`), if its memory pool has room for
them.

A segment that lies in front of the loop over the segments is taken as a
whole (`prepareLoop_segment`); for each kind of segment there is a lemma
about what it loads (`loop_quant`, `loop_sof`, `loop_dht`, `loop_sos`).
-/
import SitNChow.Jpeg.Prepare

namespace SitNChow.Jpeg

open Kit Kit.Bits

-- ================================================= reading a segment

variable {szbuf szYuv n i : Nat} {p : Prep} {data rest : List UInt8} {m : UInt8}

/-- An allocation that fits takes its size, rounded up to whole words. -/
theorem allocPool_ok (ndata szPool : Nat) (h : (ndata + 3) / 4 * 4 ≤ szPool) :
    allocPool ndata szPool = .ok (szPool - (ndata + 3) / 4 * 4) := if_pos h

/-- One that does not fit fails. -/
theorem allocPool_short (ndata szPool : Nat)
    (h : szPool < (ndata + 3) / 4 * 4) :
    allocPool ndata szPool = .error .mem1 := if_neg (Nat.not_le_of_lt h)

/-- A number below 256 is read back from its byte. -/
theorem toNat_ofNat {k : Nat} (h : k < 256) : (UInt8.ofNat k).toNat = k := by
  rw [UInt8.toNat_ofNat']
  exact Nat.mod_eq_of_lt h

/-- A number below 65536 is read back from its two bytes. -/
theorem wordBytes_toNat {k : Nat} (h : k < 65536) :
    (UInt8.ofNat (k / 256)).toNat * 256 + (UInt8.ofNat (k % 256)).toNat = k := by
  rw [toNat_ofNat (by omega), toNat_ofNat (by omega)]
  omega

/-- A segment that fits the input buffer is loaded as a whole. -/
theorem loadSegment_ok (data rest : List UInt8) (hlen : data.length ≤ szbuf) :
    loadSegment szbuf data.length (data ++ rest) = .ok (data, rest) := by
  rw [loadSegment, if_neg (by omega)]
  have htake : (data ++ rest).take data.length = data := List.take_left
  have hdrop : (data ++ rest).drop data.length = rest := List.drop_left
  simp only [infunc, htake, hdrop, ne_eq, not_true_eq_false, if_false]

/-- A segment in front of the loop is taken as a whole. -/
theorem prepareLoop_segment (hm : m ≠ 0xFF) (hpos : 0 < data.length)
    (hlen : data.length + 2 < 65536) (n : Nat) (p : Prep) :
    prepareLoop szbuf szYuv (n + 1) p (segment m data ++ rest)
      = (let p := { p with ofs := p.ofs + 4 + data.length }
        if m.toNat = 0xDA then do
          let (data, device) ← loadSegment szbuf data.length (data ++ rest)
          let p ← parseSos szYuv data p
          return (p.jd, alignStream szbuf p.ofs device)
        else do
          let (p, device) ← parseSegment szbuf m.toNat data.length p
            (data ++ rest)
          prepareLoop szbuf szYuv n p device) := by
  have hlt : m.toNat < 256 := m.toNat_lt
  have hm' : m.toNat ≠ 255 := by
    intro h
    exact hm (UInt8.toNat_inj.mp h)
  have hword := wordBytes_toNat hlen
  have hmarker : (255 * 256 + m.toNat) >>> 8 = 255 := by
    rw [Nat.shiftRight_eq_div_pow]
    omega
  have hlow : (255 * 256 + m.toNat) &&& 255 = m.toNat := by
    have := Nat.and_two_pow_sub_one_eq_mod (255 * 256 + m.toNat) 8
    have h255 : 2 ^ 8 - 1 = 255 := rfl
    rw [h255] at this
    rw [this]
    omega
  have hw0 : ldbWord [0xFF, m, UInt8.ofNat ((data.length + 2) / 256),
      UInt8.ofNat ((data.length + 2) % 256)] 0 = 255 * 256 + m.toNat := rfl
  have hw2 : ldbWord [0xFF, m, UInt8.ofNat ((data.length + 2) / 256),
      UInt8.ofNat ((data.length + 2) % 256)] 2 = data.length + 2 := hword
  have hseg : infunc 4 (segment m data ++ rest)
      = ([0xFF, m, UInt8.ofNat ((data.length + 2) / 256),
        UInt8.ofNat ((data.length + 2) % 256)], data ++ rest) := rfl
  rw [prepareLoop, hseg]
  simp only [bind, Except.bind, pure, Except.pure, List.length_cons,
    List.length_nil, Nat.zero_add, Nat.reduceAdd, ne_eq, not_true_eq_false,
    if_false, hw0, hw2]
  rw [if_neg (by omega)]
  simp only [hmarker, hlow, Nat.add_sub_cancel, not_true_eq_false, or_false]
  rw [if_neg (by omega)]

/-- A table of numbers below 256 is read back from its bytes. -/
theorem map_toNat_ofNat {xs : List Nat} (h : ∀ x ∈ xs, x < 256) :
    (xs.map UInt8.ofNat).map UInt8.toNat = xs := by
  rw [List.map_map]
  calc xs.map (UInt8.toNat ∘ UInt8.ofNat)
      = xs.map id := List.map_congr_left fun x hx => toNat_ofNat (h x hx)
    _ = xs := List.map_id xs

/-- The pool and the quantizers after a quantizer segment. -/
def Prep.withQuant (p : Prep) (i : Nat) (tbl : List Int) : Prep :=
  { p with
    szPool := p.szPool - 256
    jd := { p.jd with
      qttbl := fun k => if k = i then some tbl else p.jd.qttbl k } }

/-- What a Huffman table takes of the pool. -/
def huffCost (np : Nat) : Nat :=
  16 + (np * 2 + 3) / 4 * 4 + (np + 3) / 4 * 4

/-- The three allocations of a Huffman table, as one. -/
theorem allocPool_huff {α : Type} (np szPool : Nat)
    (f : Nat → Except JResult α) :
    (allocPool 16 szPool >>= fun szPool => allocPool (np * 2) szPool >>=
      fun szPool => allocPool np szPool >>= f)
      = if huffCost np ≤ szPool then f (szPool - huffCost np)
        else .error .mem1 := by
  unfold huffCost
  by_cases h₁ : 16 ≤ szPool
  · rw [allocPool_ok _ _ h₁]
    show (allocPool (np * 2) (szPool - 16) >>= _) = _
    by_cases h₂ : (np * 2 + 3) / 4 * 4 ≤ szPool - 16
    · rw [allocPool_ok _ _ h₂]
      show (allocPool np (szPool - 16 - (np * 2 + 3) / 4 * 4) >>= f) = _
      by_cases h₃ : (np + 3) / 4 * 4 ≤ szPool - 16 - (np * 2 + 3) / 4 * 4
      · rw [allocPool_ok _ _ h₃, if_pos (by omega), ← Nat.sub_sub,
          ← Nat.sub_sub]
        rfl
      · rw [allocPool_short _ _ (by omega), if_neg (by omega)]
        rfl
    · rw [allocPool_short _ _ (by omega), if_neg (by omega)]
      rfl
  · rw [allocPool_short _ _ (by omega), if_neg (by omega)]
    rfl

/-- The pool and the tables after a Huffman segment. -/
def Prep.withHuff (p : Prep) (num cls : Nat) (tbl : HuffTbl) : Prep :=
  { p with
    szPool := p.szPool - huffCost tbl.huffdata.length
    jd := { p.jd with
      huff := fun i j => if i = num ∧ j = cls then some tbl
        else p.jd.huff i j } }

/-- The number of a quantizer table is read back from its flags, which say 8
bits. -/
theorem quantFlags (hi : i < 2) : i &&& 0xF0 = 0 ∧ i &&& 3 = i := by
  match i, hi with
  | 0, _ => exact ⟨rfl, rfl⟩
  | 1, _ => exact ⟨rfl, rfl⟩

/-- The number and the class of a Huffman table are read back from its flags.
-/
theorem dhtFlags (hi : i < 2) (acFlag : Bool) :
    (i + (acFlag.toNat <<< 4)) &&& 0xEE = 0
      ∧ (i + (acFlag.toNat <<< 4)) >>> 4 = acFlag.toNat
      ∧ (i + (acFlag.toNat <<< 4)) &&& 0x0F = i := by
  match i, acFlag, hi with
  | 0, false, _ => exact ⟨rfl, rfl, rfl⟩
  | 0, true, _ => exact ⟨rfl, rfl, rfl⟩
  | 1, false, _ => exact ⟨rfl, rfl, rfl⟩
  | 1, true, _ => exact ⟨rfl, rfl, rfl⟩

/-- A quantizer segment is loaded if the pool has room for its table. -/
theorem parse_quant (p : Prep) (rest : List UInt8) {quant : List Nat}
    (hi : i < 2) (hlen : quant.length = 64) (hq : ∀ x ∈ quant, x < 256)
    (hsz : 65 ≤ szbuf) :
    parseSegment szbuf 0xDB (quantData i quant).length p
        (quantData i quant ++ rest)
      = if 256 ≤ p.szPool then .ok (p.withQuant i (quantTable quant), rest)
        else .error .mem1 := by
  have hdata : (quantData i quant).length = 65 := by
    rw [quantData, List.length_cons, List.length_map, hlen]
  have hload := loadSegment_ok (quantData i quant) rest
    (show (quantData i quant).length ≤ szbuf by omega)
  have hbyte : byteAt (quantData i quant) 0 = i := by
    show (UInt8.ofNat i).toNat = i
    exact toNat_ofNat (by omega)
  have htable : quantTable (((quantData i quant).drop 1).map UInt8.toNat)
      = quantTable quant := by
    have hdrop1 : (quantData i quant).drop 1 = quant.map UInt8.ofNat := rfl
    rw [hdrop1, map_toNat_ofNat hq]
  have hdrop : (quantData i quant).drop 65 = [] :=
    List.drop_eq_nil_of_le (by omega)
  have hflags := quantFlags hi
  have hcreate : createQtTbl 65 (quantData i quant) p
      = if 256 ≤ p.szPool then .ok (p.withQuant i (quantTable quant))
        else .error .mem1 := by
    rw [createQtTbl]
    simp only [bind, Except.bind, pure, Except.pure]
    rw [if_neg (by omega), if_neg (by omega)]
    simp only [hbyte, hflags.1, hflags.2, htable, hdrop]
    rw [if_neg (by decide)]
    by_cases hpool : 256 ≤ p.szPool
    · rw [if_pos hpool, allocPool_ok _ _ hpool]
      rfl
    · rw [if_neg hpool, allocPool_short _ _ (Nat.lt_of_not_le hpool)]
  rw [parseSegment, if_neg (by decide), if_neg (by decide),
    if_neg (by decide), if_pos rfl]
  simp only [hload, bind, Except.bind, pure, Except.pure]
  rw [hdata, hcreate]
  by_cases hpool : 256 ≤ p.szPool
  · rw [if_pos hpool, if_pos hpool]
  · rw [if_neg hpool, if_neg hpool]

/-- Rebuilt in 16 bits, the code words are the canonical ones. -/
theorem buildCodes_eq {cs : List Nat} {first len hc : Nat}
    (hf : PrefixCode.Fits cs first len) (hlen : len + cs.length ≤ 17)
    (hhc : hc % 65536 = first % 65536) :
    buildCodes cs hc = PrefixCode.words cs first := by
  induction cs generalizing first len hc with
  | nil => rfl
  | cons c cs ih =>
      obtain ⟨hfit, hf⟩ := hf
      rw [List.length_cons] at hlen
      rw [buildCodes, PrefixCode.words, ih hf (by omega) (by omega)]
      congr 1
      apply List.map_congr_left
      intro i hi
      have hic := List.mem_range.mp hi
      have hpow : 2 ^ len ≤ 2 ^ 16 :=
        Nat.pow_le_pow_right (by omega) (by omega)
      omega

/-- A Huffman segment is loaded if the pool has room for its table; the
symbols of a DC table are at most 11. -/
theorem parse_dht (p : Prep) (rest : List UInt8) {h : Huff} {index : Nat}
    {acFlag : Bool}
    (wf : WellFormed h.bits h.val) (hbits : ∀ b ∈ h.bits, b < 256)
    (hdc : acFlag = false → ∀ v ∈ h.val, v ≤ 11) (hi : index < 2)
    (hsz : 17 + h.val.length ≤ szbuf) :
    parseSegment szbuf 0xC4 (dhtData h index acFlag).length p
        (dhtData h index acFlag ++ rest)
      = if huffCost h.val.length ≤ p.szPool
        then .ok (p.withHuff index acFlag.toNat h.tbl, rest)
        else .error .mem1 := by
  have hdata : (dhtData h index acFlag).length = 17 + h.val.length := by
    rw [dhtData, List.length_cons, List.length_append, List.length_map,
      List.length_map, wf.sizes]
    omega
  have hload := loadSegment_ok (dhtData h index acFlag) rest
    (show (dhtData h index acFlag).length ≤ szbuf by omega)
  have hbyte : byteAt (dhtData h index acFlag) 0
      = index + (acFlag.toNat <<< 4) := by
    show (UInt8.ofNat _).toNat = _
    apply toNat_ofNat
    cases acFlag
    · show index + 0 < 256
      omega
    · show index + 16 < 256
      omega
  have hflags := dhtFlags hi acFlag
  have htake : (((dhtData h index acFlag).drop 1).take 16).map UInt8.toNat
      = h.bits := by
    show ((h.bits.map UInt8.ofNat ++ h.val.map UInt8.ofNat).take 16).map _ = _
    rw [List.take_left' (by rw [List.length_map, wf.sizes]),
      map_toNat_ofNat hbits]
  have hdrop : (dhtData h index acFlag).drop 17 = h.val.map UInt8.ofNat := by
    show (h.bits.map UInt8.ofNat ++ h.val.map UInt8.ofNat).drop 16 = _
    rw [List.drop_left' (by rw [List.length_map, wf.sizes])]
  have hval : ((h.val.map UInt8.ofNat).take h.val.length).map UInt8.toNat
      = h.val := by
    rw [List.take_of_length_le (by rw [List.length_map]),
      map_toNat_ofNat wf.bytes]
  have hend : (h.val.map UInt8.ofNat).drop h.val.length = [] :=
    List.drop_eq_nil_of_le (by rw [List.length_map])
  have hcodes : buildCodes h.bits 0 = PrefixCode.words h.bits 0 :=
    buildCodes_eq wf.fits (by rw [wf.sizes]) rfl
  have hany : ¬ (acFlag.toNat = 0 ∧ h.val.any (11 < ·) = true) := by
    rintro ⟨h0, hany⟩
    obtain ⟨v, hv, h11⟩ := List.any_eq_true.mp hany
    have hle := hdc (by cases acFlag; rfl; cases h0) v hv
    exact absurd (of_decide_eq_true h11) (by omega)
  have hcreate : createHuffmanTbl (17 + h.val.length)
      (dhtData h index acFlag) p
      = if huffCost h.val.length ≤ p.szPool
        then .ok (p.withHuff index acFlag.toNat h.tbl)
        else .error .mem1 := by
    have hlen : ¬ (h.val.map UInt8.ofNat).length < h.val.length := by
      rw [List.length_map]
      exact Nat.lt_irrefl _
    rw [Nat.add_comm, createHuffmanTbl]
    simp only [pure, Except.pure]
    rw [if_neg (by omega), if_neg (by omega)]
    simp only [hbyte, hflags.1, hflags.2.1, hflags.2.2, htake, ← wf.total,
      hdrop, hval, hend, hcodes, if_neg hlen, if_neg hany]
    rw [if_neg (by decide)]
    exact allocPool_huff h.val.length p.szPool _
  rw [parseSegment, if_neg (by decide), if_neg (by decide), if_pos rfl]
  simp only [hload, bind, Except.bind, pure, Except.pure]
  rw [hdata, hcreate]
  by_cases hpool : huffCost h.val.length ≤ p.szPool
  · rw [if_pos hpool, if_pos hpool]
  · rw [if_neg hpool, if_neg hpool]

/-- The fields a frame segment sets. -/
def Prep.withFrame (p : Prep) (sub : Subsampling) (imageX imageY : Nat) :
    Prep :=
  { p with jd := { p.jd with
      width := imageX
      height := imageY
      ncomp := sub.numComponents
      msx := sub.hSamp
      msy := sub.vSamp
      qtid := (List.range sub.numComponents).foldl
        (fun qtid i k => if k = i then (if 0 < i then 1 else 0) else qtid k)
        p.jd.qtid } }

/-- The sampling and the quantizer table of a component in the frame segment:
luminance has table 0, chrominance 1. -/
theorem byteAt_sof {sub : Subsampling} (hi : i < sub.numComponents)
    (imageX imageY : Nat) :
    byteAt (sofData sub imageX imageY) (7 + 3 * i) = sub.samp i
      ∧ byteAt (sofData sub imageX imageY) (8 + 3 * i)
        = if 0 < i then 1 else 0 := by
  match sub, i, hi with
  | .yOnly, 0, _ => exact ⟨rfl, rfl⟩
  | .h1v1, 0, _ => exact ⟨rfl, rfl⟩
  | .h1v1, 1, _ => exact ⟨rfl, rfl⟩
  | .h1v1, 2, _ => exact ⟨rfl, rfl⟩
  | .h2v1, 0, _ => exact ⟨rfl, rfl⟩
  | .h2v1, 1, _ => exact ⟨rfl, rfl⟩
  | .h2v1, 2, _ => exact ⟨rfl, rfl⟩
  | .h2v2, 0, _ => exact ⟨rfl, rfl⟩
  | .h2v2, 1, _ => exact ⟨rfl, rfl⟩
  | .h2v2, 2, _ => exact ⟨rfl, rfl⟩

/-- What a component of a frame sets. -/
def setComponent (sub : Subsampling) (i : Nat) (jd : Jdec Unit) : Jdec Unit :=
  { jd with
    msx := if i = 0 then sub.hSamp else jd.msx
    msy := if i = 0 then sub.vSamp else jd.msy
    qtid := fun k => if k = i then (if 0 < i then 1 else 0) else jd.qtid k }

/-- `jd_prepare` accepts every component of the frame segment. -/
theorem sofComponent_eq {sub : Subsampling} (hi : i < sub.numComponents)
    (imageX imageY : Nat) (jd : Jdec Unit) :
    sofComponent (sofData sub imageX imageY) i jd
      = .ok (setComponent sub i jd) := by
  obtain ⟨hb, hq⟩ := byteAt_sof hi imageX imageY
  have hle : ¬ 3 < (if 0 < i then 1 else 0) := by
    split <;> omega
  rw [sofComponent, hb, hq]
  simp only [bind, Except.bind, pure, Except.pure, if_neg hle]
  cases i with
  | zero => cases sub <;> rfl
  | succ i => cases sub <;> rfl

/-- And so all of them in turn. -/
theorem sofComponents_eq {sub : Subsampling} (imageX imageY : Nat)
    (xs : List Nat) (hxs : ∀ i ∈ xs, i < sub.numComponents)
    (jd : Jdec Unit) :
    xs.foldlM (fun jd i => sofComponent (sofData sub imageX imageY) i jd) jd
      = .ok (xs.foldl (fun jd i => setComponent sub i jd) jd) := by
  induction xs generalizing jd with
  | nil => rfl
  | cons x xs ih =>
      rw [List.foldlM_cons, sofComponent_eq (hxs x List.mem_cons_self)]
      exact ih (fun i hi => hxs i (List.mem_cons_of_mem x hi)) _

/-- A frame segment is loaded with size, components and sampling. -/
theorem parse_sof (p : Prep) (rest : List UInt8) (sub : Subsampling)
    {imageX imageY : Nat}
    (hx : imageX < 65536) (hy : imageY < 65536) (hsz : 15 ≤ szbuf) :
    parseSegment szbuf 0xC0 (sofData sub imageX imageY).length p
        (sofData sub imageX imageY ++ rest)
      = .ok (p.withFrame sub imageX imageY, rest) := by
  have hlen : (sofData sub imageX imageY).length
      = 6 + 3 * sub.numComponents := by
    cases sub <;> rfl
  have hn : sub.numComponents ≤ 3 := by
    cases sub <;> decide
  have hload := loadSegment_ok (sofData sub imageX imageY) rest
    (show (sofData sub imageX imageY).length ≤ szbuf by omega)
  have hw : ldbWord (sofData sub imageX imageY) 3 = imageX :=
    wordBytes_toNat hx
  have hh : ldbWord (sofData sub imageX imageY) 1 = imageY :=
    wordBytes_toNat hy
  have hparse : parseSof (sofData sub imageX imageY) p
      = .ok (p.withFrame sub imageX imageY) := by
    have hncomp : byteAt (sofData sub imageX imageY) 5
        = sub.numComponents := by
      cases sub <;> rfl
    have hnot : ¬ (sub.numComponents ≠ 3 ∧ sub.numComponents ≠ 1) := by
      cases sub <;> decide
    rw [parseSof, hw, hh, hncomp]
    simp only [if_neg hnot, bind, Except.bind, pure, Except.pure,
      sofComponents_eq imageX imageY _ fun i hi => List.mem_range.mp hi]
    cases sub <;> rfl
  rw [parseSegment]
  simp only [hload, bind, Except.bind, pure, Except.pure]
  rw [hparse]
  rfl

/-- What the working buffers take of the pool. -/
def Subsampling.workCost (szYuv : Nat) (sub : Subsampling) : Nat :=
  (if sub.vSamp * sub.hSamp * 64 * 2 + 64 < 256 then 256
    else sub.vSamp * sub.hSamp * 64 * 2 + 64)
    + (sub.vSamp * sub.hSamp + 2) * 64 * szYuv

/-- Where the tables of every component are there, a scan segment is accepted
if the pool has room for the working buffers. -/
theorem parse_sos (szYuv : Nat) (p : Prep) (sub : Subsampling)
    (hw : p.jd.width ≠ 0)
    (hh : p.jd.height ≠ 0) (hn : p.jd.ncomp = sub.numComponents)
    (hx : p.jd.msx = sub.hSamp) (hy : p.jd.msy = sub.vSamp)
    (htbl : ∀ i < sub.numComponents, ∀ cls < 2,
      (p.jd.huff (if i ≠ 0 then 1 else 0) cls).isNone = false)
    (hq : ∀ i < sub.numComponents,
      (p.jd.qttbl (p.jd.qtid i)).isNone = false) :
    parseSos szYuv (sosData sub) p
      = if sub.workCost szYuv ≤ p.szPool
        then .ok { p with szPool := p.szPool - sub.workCost szYuv }
        else .error .mem1 := by
  have hcomp : ∀ i < sub.numComponents,
      sosComponent (sosData sub) p.jd i = .ok () := by
    intro i hi
    have hbyte : byteAt (sosData sub) (2 + 2 * i) = 0
        ∨ byteAt (sosData sub) (2 + 2 * i) = 0x11 := by
      match sub, i, hi with
      | .yOnly, 0, _ => exact .inl rfl
      | .h1v1, 0, _ => exact .inl rfl
      | .h1v1, 1, _ => exact .inr rfl
      | .h1v1, 2, _ => exact .inr rfl
      | .h2v1, 0, _ => exact .inl rfl
      | .h2v1, 1, _ => exact .inr rfl
      | .h2v1, 2, _ => exact .inr rfl
      | .h2v2, 0, _ => exact .inl rfl
      | .h2v2, 1, _ => exact .inr rfl
      | .h2v2, 2, _ => exact .inr rfl
    have hnot : ¬ (byteAt (sosData sub) (2 + 2 * i) ≠ 0
        ∧ byteAt (sosData sub) (2 + 2 * i) ≠ 0x11) := by omega
    rw [sosComponent]
    simp only [if_neg hnot, htbl i hi 0 (by omega), htbl i hi 1 (by omega),
      hq i hi, bind, Except.bind, pure, Except.pure]
    rfl
  have hall : ∀ xs : List Nat, (∀ i ∈ xs, i < sub.numComponents) →
      xs.forM (sosComponent (sosData sub) p.jd) = .ok () := by
    intro xs
    induction xs with
    | nil => intro _; rfl
    | cons x xs ih =>
        intro hxs
        show (sosComponent _ _ x >>= fun _ => xs.forM _) = _
        rw [hcomp x (hxs x List.mem_cons_self)]
        exact ih fun i hi => hxs i (List.mem_cons_of_mem x hi)
  have hfirst : byteAt (sosData sub) 0 = sub.numComponents := by
    cases sub <;> rfl
  have hn0 : sub.vSamp * sub.hSamp ≠ 0 := by
    cases sub <;> decide
  unfold Subsampling.workCost
  rw [parseSos]
  simp only [bind, Except.bind, pure, Except.pure]
  rw [if_neg (by omega), hfirst, if_neg (by omega), hn,
    hall _ fun i hi => List.mem_range.mp hi]
  simp only [hx, hy]
  rw [if_neg hn0]
  generalize hlen : (if sub.vSamp * sub.hSamp * 64 * 2 + 64 < 256 then 256
    else sub.vSamp * sub.hSamp * 64 * 2 + 64) = len
  have h4 : len % 4 = 0 := by
    rw [← hlen]
    split <;> omega
  have hyuv : ((sub.vSamp * sub.hSamp + 2) * 64 * szYuv + 3) / 4 * 4
      = (sub.vSamp * sub.hSamp + 2) * 64 * szYuv := by
    rw [Nat.mul_right_comm]
    omega
  generalize (sub.vSamp * sub.hSamp + 2) * 64 * szYuv = yuv at hyuv
  by_cases h₁ : len ≤ p.szPool
  · rw [allocPool_ok _ _ (by omega)]
    simp only
    by_cases h₂ : len + yuv ≤ p.szPool
    · rw [allocPool_ok _ _ (by omega), if_pos h₂]
      simp only [hyuv]
      congr 2
      omega
    · rw [allocPool_short _ _ (by omega), if_neg h₂]
  · rw [allocPool_short _ _ (by omega), if_neg (by omega)]

/-- The input that is aligned in the buffer is read before the rest. -/
theorem alignStream_unread (szbuf ofs : Nat) (device : List UInt8) :
    (alignStream szbuf ofs device).unread = device := by
  rw [alignStream]
  dsimp only
  split
  · exact List.take_append_drop _ _
  · rfl

-- ================================================== the encoder's header

/-- The tables of a component in a file with these settings. -/
def Setting.tables (q : Setting) (cmp : Nat) : Tables :=
  if cmp = 0 then ⟨q.dc, q.ac, quantTable q.quant⟩
  else ⟨q.dcC, q.acC, quantTable q.quantC⟩

/-- The bytes of a segment are counted. -/
def Prep.read (p : Prep) (data : List UInt8) : Prep :=
  { p with ofs := p.ofs + 4 + data.length }

/-- The loop over the segments skips the application segment. -/
theorem loop_app0 : prepareLoop szbuf szYuv (n + 1) p (segment 0xE0 app0Data ++ rest)
    = prepareLoop szbuf szYuv n (p.read app0Data) rest := by
  rw [prepareLoop_segment (by decide) (by decide) (by decide)]
  rfl

/-- It takes a quantizer table if the pool has room for it. -/
theorem loop_quant {quant : List Nat} (hi : i < 2) (hlen : quant.length = 64)
    (hq : ∀ x ∈ quant, x < 256) (hsz : 65 ≤ szbuf) :
    prepareLoop szbuf szYuv (n + 1) p
        (segment 0xDB (quantData i quant) ++ rest)
      = if 256 ≤ p.szPool
        then prepareLoop szbuf szYuv n
          ((p.read (quantData i quant)).withQuant i (quantTable quant)) rest
        else .error .mem1 := by
  have hdata : (quantData i quant).length = 65 := by
    rw [quantData, List.length_cons, List.length_map, hlen]
  rw [prepareLoop_segment (by decide) (by omega) (by omega)]
  have hparse := parse_quant (p.read (quantData i quant)) rest hi hlen hq hsz
  unfold Prep.read at *
  dsimp only at hparse ⊢
  rw [if_neg (by decide), show (0xDB : UInt8).toNat = 0xDB from rfl, hparse]
  by_cases hpool : 256 ≤ p.szPool
  · rw [if_pos hpool, if_pos hpool]
    rfl
  · rw [if_neg hpool, if_neg hpool]
    rfl

/-- It takes the frame with its components. -/
theorem loop_sof {sub : Subsampling} {imageX imageY : Nat}
    (hx : imageX < 65536) (hy : imageY < 65536) (hsz : 15 ≤ szbuf) :
    prepareLoop szbuf szYuv (n + 1) p (segment 0xC0 (sofData sub imageX imageY) ++ rest)
      = prepareLoop szbuf szYuv n
        ((p.read (sofData sub imageX imageY)).withFrame sub imageX imageY)
        rest := by
  have hlen : (sofData sub imageX imageY).length
      = 6 + 3 * sub.numComponents := by
    cases sub <;> rfl
  have hn : sub.numComponents ≤ 3 := by
    cases sub <;> decide
  rw [prepareLoop_segment (by decide) (by omega) (by omega)]
  have hparse := parse_sof (p.read (sofData sub imageX imageY)) rest sub hx hy
    hsz
  unfold Prep.read at *
  simp only [show (0xC0 : UInt8).toNat = 0xC0 from rfl, hparse, bind,
    Except.bind]
  rfl

/-- A Huffman table of the file that the decoder can load. -/
structure Huff.Loadable (h : Huff) (szbuf : Nat) (acFlag : Bool) : Prop where
  wellFormed : WellFormed h.bits h.val
  bits : ∀ b ∈ h.bits, b < 256
  dc : acFlag = false → ∀ v ∈ h.val, v ≤ 11
  room : 17 + h.val.length ≤ szbuf
  size : h.val.length ≤ 256

/-- It takes a Huffman table if the pool has room for it. -/
theorem loop_dht {h : Huff} {index : Nat} {acFlag : Bool}
    (hl : h.Loadable szbuf acFlag) (hi : index < 2) :
    prepareLoop szbuf szYuv (n + 1) p
        (segment 0xC4 (dhtData h index acFlag) ++ rest)
      = if huffCost h.val.length ≤ p.szPool
        then prepareLoop szbuf szYuv n
          ((p.read (dhtData h index acFlag)).withHuff index acFlag.toNat h.tbl)
          rest
        else .error .mem1 := by
  have hdata : (dhtData h index acFlag).length = 17 + h.val.length := by
    rw [dhtData, List.length_cons, List.length_append, List.length_map,
      List.length_map, hl.wellFormed.sizes]
    omega
  have hsize := hl.size
  rw [prepareLoop_segment (by decide) (by omega) (by omega)]
  have hparse := parse_dht (p.read (dhtData h index acFlag)) rest
    hl.wellFormed hl.bits hl.dc hi hl.room
  unfold Prep.read at *
  dsimp only at hparse ⊢
  rw [if_neg (by decide), show (0xC4 : UInt8).toNat = 0xC4 from rfl, hparse]
  by_cases hpool : huffCost h.val.length ≤ p.szPool
  · rw [if_pos hpool, if_pos hpool]
    rfl
  · rw [if_neg hpool, if_neg hpool]
    rfl

/-- What the decoder has behind the header of a file. -/
structure Prepared (sub : Subsampling) (imageX imageY : Nat) (q : Setting)
    {ι : Type} (jd : Jdec ι) : Prop where
  width : jd.width = imageX
  height : jd.height = imageY
  ncomp : jd.ncomp = sub.numComponents
  msx : jd.msx = sub.hSamp
  msy : jd.msy = sub.vSamp
  nrst : jd.nrst = 0
  tables : ∀ cmp < sub.numComponents, jd.Has cmp (q.tables cmp)

/-- It ends at the scan if the pool has room for the working buffers; what
is behind the scan is still to be read. -/
theorem loop_sos (szYuv n : Nat) (rest : List UInt8) {sub : Subsampling}
    {imageX imageY : Nat} {q : Setting}
    (hx : imageX ≠ 0) (hy : imageY ≠ 0)
    (hp : Prepared sub imageX imageY q p.jd) (hsz : 10 ≤ szbuf) :
    ∃ s, prepareLoop szbuf szYuv (n + 1) p
        (segment 0xDA (sosData sub) ++ rest)
        = (if sub.workCost szYuv ≤ p.szPool then .ok (p.jd, s)
          else .error .mem1)
      ∧ s.unread = rest := by
  have hlen : (sosData sub).length = 4 + 2 * sub.numComponents := by
    cases sub <;> rfl
  have hn : sub.numComponents ≤ 3 := by
    cases sub <;> decide
  have hload := loadSegment_ok (sosData sub) rest
    (show (sosData sub).length ≤ szbuf by omega)
  have hsos := parse_sos szYuv (p.read (sosData sub)) sub
    (by
      show p.jd.width ≠ 0
      rwa [hp.width])
    (by
      show p.jd.height ≠ 0
      rwa [hp.height])
    hp.ncomp hp.msx hp.msy
    (fun i hi cls hcls => by
      have hhas := hp.tables i hi
      match cls, hcls with
      | 0, _ => exact congrArg Option.isNone hhas.dc
      | 1, _ => exact congrArg Option.isNone hhas.ac)
    (fun i hi => congrArg Option.isNone (hp.tables i hi).quant)
  refine ⟨alignStream szbuf (p.read (sosData sub)).ofs rest, ?_,
    alignStream_unread _ _ _⟩
  rw [prepareLoop_segment (by decide) (by omega) (by omega)]
  unfold Prep.read at *
  dsimp only at hsos ⊢
  rw [if_pos (by decide), hload]
  simp only [hsos, bind, Except.bind, pure, Except.pure]
  by_cases hpool : sub.workCost szYuv ≤ p.szPool
  · rw [if_pos hpool, if_pos hpool]
  · rw [if_neg hpool, if_neg hpool]

/-- What the tables of the file and the working buffers take of the
pool. -/
def Subsampling.loadCost (szYuv : Nat) (sub : Subsampling) : Nat :=
  (if sub.numComponents = 3 then 2 else 1)
      * (256 + huffCost 12 + huffCost 162)
    + sub.workCost szYuv

/-- The same with the input buffer. -/
def poolCost (szbuf szYuv : Nat) (sub : Subsampling) : Nat :=
  (szbuf + 3) / 4 * 4 + sub.loadCost szYuv

/-- The DC table of the luminance can be loaded. -/
theorem loadable_dcLum (h : 179 ≤ szbuf) : dcLum.Loadable szbuf false where
  wellFormed := wellFormed_dcLum
  bits := by decide
  dc _ := by decide
  room := Nat.le_trans (by decide) h
  size := by decide

/-- The DC table of the chrominance can be loaded. -/
theorem loadable_dcChroma (h : 179 ≤ szbuf) :
    dcChroma.Loadable szbuf false where
  wellFormed := wellFormed_dcChroma
  bits := by decide
  dc _ := by decide
  room := Nat.le_trans (by decide) h
  size := by decide

/-- The AC table of the luminance has 162 symbols. -/
theorem length_acLum : acLum.val.length = 162 := by decide +kernel

/-- And so has that of the chrominance. -/
theorem length_acChroma : acChroma.val.length = 162 := by decide +kernel

/-- The AC table of the luminance can be loaded. -/
theorem loadable_acLum (h : 179 ≤ szbuf) : acLum.Loadable szbuf true where
  wellFormed := wellFormed_acLum
  bits := by decide
  dc hf := by cases hf
  room := by
    rw [length_acLum]
    exact h
  size := by
    rw [length_acLum]
    decide

/-- The AC table of the chrominance can be loaded. -/
theorem loadable_acChroma (h : 179 ≤ szbuf) :
    acChroma.Loadable szbuf true where
  wellFormed := wellFormed_acChroma
  bits := by decide
  dc hf := by cases hf
  room := by
    rw [length_acChroma]
    exact h
  size := by
    rw [length_acChroma]
    decide

/-- The DC table of each component codes every difference. -/
theorem Setting.Valid.codesDc {q : Setting} (hq : q.Valid) (cmp : Nat) :
    (q.tables cmp).dc.CodesDc := by
  unfold Setting.tables
  split
  · exact hq.dc ▸ codesDc_dcLum
  · exact hq.dcC ▸ codesDc_dcChroma

/-- The AC table of each component codes every coefficient. -/
theorem Setting.Valid.codesAc {q : Setting} (hq : q.Valid) (cmp : Nat) :
    (q.tables cmp).ac.CodesAc := by
  unfold Setting.tables
  split
  · exact hq.ac ▸ codesAc_acLum
  · exact hq.acC ▸ codesAc_acChroma

/-- The luminance tables are loaded into an empty decoder. -/
def Prep.withLum (p : Prep) (q : Setting) : Prep :=
  ((p.read (dhtData q.dc 0 false)).withHuff 0 0 q.dc.tbl
    |>.read (dhtData q.ac 0 true)).withHuff 0 1 q.ac.tbl

/-- The chrominance tables are loaded as well. -/
def Prep.withChroma (p : Prep) (q : Setting) : Prep :=
  ((p.read (dhtData q.dcC 1 false)).withHuff 1 0 q.dcC.tbl
    |>.read (dhtData q.acC 1 true)).withHuff 1 1 q.acC.tbl

/-- The two luminance tables are taken if the pool has room for both. -/
theorem loop_lum {q : Setting} (hq : q.Valid) (hsz : 179 ≤ szbuf) :
    prepareLoop szbuf szYuv (n + 2) p (segment 0xC4 (dhtData q.dc 0 false)
        ++ (segment 0xC4 (dhtData q.ac 0 true) ++ rest))
      = if huffCost 12 + huffCost 162 ≤ p.szPool
        then prepareLoop szbuf szYuv n (p.withLum q) rest
        else .error .mem1 := by
  have hcost : huffCost 12 ≤ p.szPool ∧ huffCost 162 ≤ p.szPool - huffCost 12
      ↔ huffCost 12 + huffCost 162 ≤ p.szPool := by
    omega
  rw [Prep.withLum, hq.dc, hq.ac, loop_dht (loadable_dcLum hsz) (by omega),
    loop_dht (loadable_acLum hsz) (by omega), length_acLum, ← ite_and]
  exact if_congr hcost rfl rfl

/-- And so are the two chrominance tables. -/
theorem loop_chroma {q : Setting} (hq : q.Valid) (hsz : 179 ≤ szbuf) :
    prepareLoop szbuf szYuv (n + 2) p (segment 0xC4 (dhtData q.dcC 1 false)
        ++ (segment 0xC4 (dhtData q.acC 1 true) ++ rest))
      = if huffCost 12 + huffCost 162 ≤ p.szPool
        then prepareLoop szbuf szYuv n (p.withChroma q) rest
        else .error .mem1 := by
  have hcost : huffCost 12 ≤ p.szPool ∧ huffCost 162 ≤ p.szPool - huffCost 12
      ↔ huffCost 12 + huffCost 162 ≤ p.szPool := by
    omega
  rw [Prep.withChroma, hq.dcC, hq.acC,
    loop_dht (loadable_dcChroma hsz) (by omega),
    loop_dht (loadable_acChroma hsz) (by omega), length_acChroma, ← ite_and]
  exact if_congr hcost rfl rfl

/-- What the pool has left behind the luminance tables. -/
theorem szPool_withLum {q : Setting} (hq : q.Valid) :
    (p.withLum q).szPool = p.szPool - huffCost 12 - huffCost 162 := by
  rw [Prep.withLum, hq.dc, hq.ac, ← length_acLum]
  rfl

/-- What it has left behind the chrominance tables. -/
theorem szPool_withChroma {q : Setting} (hq : q.Valid) :
    (p.withChroma q).szPool = p.szPool - huffCost 12 - huffCost 162 := by
  rw [Prep.withChroma, hq.dcC, hq.acC, ← length_acChroma]
  rfl

/-- The decoder behind the header of a monochrome file. -/
theorem prepared_mono {q : Setting} (hq : q.Valid) (imageX imageY : Nat)
    (szPool ofs : Nat) (data₀ data₁ data₂ : List UInt8) :
    Prepared .yOnly imageX imageY q
      ((((((⟨Jdec.blank, szPool, ofs⟩ : Prep).read data₀).read
        data₁).withQuant 0 (quantTable q.quant)).read data₂).withFrame
          .yOnly imageX imageY |>.withLum q).jd where
  width := rfl
  height := rfl
  ncomp := rfl
  msx := rfl
  msy := rfl
  nrst := rfl
  tables cmp hcmp := by
    obtain rfl : cmp = 0 := Nat.lt_one_iff.mp hcmp
    have hdc := hq.codesDc 0
    have hac := hq.codesAc 0
    have ht : q.tables 0 = ⟨q.dc, q.ac, quantTable q.quant⟩ := rfl
    rw [ht] at hdc hac ⊢
    generalize quantTable q.quant = dqf at hdc hac ⊢
    exact ⟨hdc, hac, rfl, rfl, rfl⟩

/-- The decoder behind the header of a colour file. -/
theorem prepared_colour {sub : Subsampling} (hsub : sub.numComponents = 3)
    {q : Setting} (hq : q.Valid) (imageX imageY : Nat)
    (szPool ofs : Nat) (data₀ data₁ data₂ data₃ : List UInt8) :
    Prepared sub imageX imageY q
      (((((((⟨Jdec.blank, szPool, ofs⟩ : Prep).read data₀).read
        data₁).withQuant 0 (quantTable q.quant)).read data₂).withQuant 1
          (quantTable q.quantC)).read data₃ |>.withFrame
            sub imageX imageY |>.withLum q |>.withChroma q).jd where
  width := rfl
  height := rfl
  ncomp := rfl
  msx := rfl
  msy := rfl
  nrst := rfl
  tables cmp hcmp := by
    rw [hsub] at hcmp
    have hqtid : ∀ k, k < 3 → ((List.range sub.numComponents).foldl
        (fun (qtid : Nat → Nat) i k =>
          if k = i then (if 0 < i then 1 else 0) else qtid k)
        (fun _ => 0)) k = if 0 < k then 1 else 0 := by
      rw [hsub]
      intro k hk
      match k, hk with
      | 0, _ => rfl
      | 1, _ => rfl
      | 2, _ => rfl
    refine ⟨hq.codesDc cmp, hq.codesAc cmp, ?_, ?_, ?_⟩
    · unfold Setting.tables
      generalize quantTable q.quant = dqf
      generalize quantTable q.quantC = dqfC
      match cmp, hcmp with
      | 0, _ => rfl
      | 1, _ => rfl
      | 2, _ => rfl
    · unfold Setting.tables
      generalize quantTable q.quant = dqf
      generalize quantTable q.quantC = dqfC
      match cmp, hcmp with
      | 0, _ => rfl
      | 1, _ => rfl
      | 2, _ => rfl
    · have hquant : ∀ k, k = (if 0 < cmp then 1 else 0) →
          (if k = 1 then some (quantTable q.quantC)
            else if k = 0 then some (quantTable q.quant) else none)
          = some (q.tables cmp).dqf := by
        rintro k rfl
        unfold Setting.tables
        generalize quantTable q.quant = dqf
        generalize quantTable q.quantC = dqfC
        match cmp, hcmp with
        | 0, _ => rfl
        | 1, _ => rfl
        | 2, _ => rfl
      exact hquant _ (hqtid cmp hcmp)

/-- The start marker is found at once. -/
theorem findSoi_header :
    findSoi ([0xFF, 0xD8] ++ rest) 0 0 = .ok (2, rest) := rfl

/-- The segments of a file are read up to the coded data, which is what
the stream has left, exactly if the pool has room for them. -/
theorem prepareLoop_header (rest : List UInt8) {sub : Subsampling}
    {imageX imageY : Nat} {q : Setting} {turns : Nat} (szYuv szPool : Nat)
    (hq : q.Valid) (hx0 : imageX ≠ 0) (hy0 : imageY ≠ 0)
    (hx : imageX < 65536) (hy : imageY < 65536) (hsz : 179 ≤ szbuf)
    (hturns : 9 ≤ turns) :
    ∃ jd s, prepareLoop szbuf szYuv turns ⟨Jdec.blank, szPool, 2⟩
        ((headerSegments sub imageX imageY q).flatMap
          (fun s => segment s.1 s.2) ++ rest)
        = (if sub.loadCost szYuv ≤ szPool then .ok (jd, s)
          else .error .mem1)
      ∧ s.unread = rest ∧ Prepared sub imageX imageY q jd := by
  obtain ⟨n, rfl⟩ : ∃ n, turns = n + 9 := ⟨turns - 9, by omega⟩
  have hquant : ∀ x ∈ q.quant, x < 256 := fun x hx => (hq.quant.2 x hx).2
  have hquantC : ∀ x ∈ q.quantC, x < 256 := fun x hx => (hq.quantC.2 x hx).2
  by_cases hsub : sub.numComponents = 3
  · have hp := prepared_colour hsub hq imageX imageY szPool 2 app0Data
      (quantData 0 q.quant) (quantData 1 q.quantC) (sofData sub imageX imageY)
    obtain ⟨s, hs, hu⟩ := loop_sos szYuv n rest hx0 hy0 hp
      (show 10 ≤ szbuf by omega)
    refine ⟨_, s, ?_, hu, hp⟩
    rw [headerSegments]
    simp only [hsub, if_true, List.flatMap_append, List.flatMap_cons,
      List.flatMap_nil, List.append_nil, List.append_assoc]
    rw [loop_app0, loop_quant (by omega) hq.quant.1 hquant (by omega),
      loop_quant (by omega) hq.quantC.1 hquantC (by omega),
      loop_sof hx hy (by omega), loop_lum hq hsz, loop_chroma hq hsz,
      hs, szPool_withChroma hq,
      szPool_withLum hq]
    simp only [← ite_and]
    refine if_congr ?_ rfl rfl
    rw [Subsampling.loadCost, if_pos hsub]
    show 256 ≤ szPool ∧ 256 ≤ szPool - 256
      ∧ huffCost 12 + huffCost 162 ≤ szPool - 256 - 256
      ∧ huffCost 12 + huffCost 162
        ≤ szPool - 256 - 256 - huffCost 12 - huffCost 162
      ∧ sub.workCost szYuv ≤ szPool - 256 - 256 - huffCost 12 - huffCost 162
        - huffCost 12 - huffCost 162 ↔ _
    omega
  · obtain rfl : sub = .yOnly := by
      cases sub with
      | yOnly => rfl
      | h1v1 => exact absurd rfl hsub
      | h2v1 => exact absurd rfl hsub
      | h2v2 => exact absurd rfl hsub
    have hp := prepared_mono hq imageX imageY szPool 2 app0Data
      (quantData 0 q.quant) (sofData .yOnly imageX imageY)
    obtain ⟨s, hs, hu⟩ := loop_sos szYuv (n + 3) rest hx0 hy0 hp
      (show 10 ≤ szbuf by omega)
    refine ⟨_, s, ?_, hu, hp⟩
    rw [headerSegments]
    simp only [hsub, if_false, List.flatMap_append, List.flatMap_cons,
      List.flatMap_nil, List.append_nil, List.append_assoc]
    rw [loop_app0, loop_quant (by omega) hq.quant.1 hquant (by omega),
      loop_sof hx hy (by omega), loop_lum hq hsz,
      hs, szPool_withLum hq]
    simp only [← ite_and]
    refine if_congr ?_ rfl rfl
    rw [Subsampling.loadCost, if_neg hsub]
    show 256 ≤ szPool ∧ huffCost 12 + huffCost 162 ≤ szPool - 256
      ∧ Subsampling.yOnly.workCost szYuv
        ≤ szPool - 256 - huffCost 12 - huffCost 162 ↔ _
    omega

/-- The header has the nine bytes that the decoder reads first. -/
theorem length_headerSegments (sub : Subsampling) (imageX imageY : Nat)
    (q : Setting) (rest : List UInt8) :
    9 ≤ ((headerSegments sub imageX imageY q).flatMap
      (fun s => segment s.1 s.2) ++ rest).length := by
  show 9 ≤ (segment 0xE0 app0Data ++ _ ++ rest).length
  rw [List.length_append, List.length_append]
  have : (segment 0xE0 app0Data).length = 18 := rfl
  omega

/-- A segment has a marker and a length besides its data. -/
theorem length_segment (m : UInt8) (data : List UInt8) :
    (segment m data).length = data.length + 4 := by
  rw [segment, List.length_append]
  exact Nat.add_comm _ _

/-- The header is short. -/
theorem length_headerBytes_le (sub : Subsampling) (imageX imageY : Nat)
    {q : Setting} (hq : q.Valid) :
    (headerBytes sub imageX imageY q).length ≤ 1024 := by
  have hquant : ∀ i quant, quant.length = 64 → (quantData i quant).length = 65 := by
    intro i quant hlen
    rw [quantData, List.length_cons, List.length_map, hlen]
  have hdht : ∀ h i ac, (dhtData h i ac).length = h.bits.length + h.val.length + 1 := by
    intro h i ac
    rw [dhtData, List.length_cons, List.length_append, List.length_map,
      List.length_map]
  have hdc : dcLum.bits.length + dcLum.val.length = 28
      ∧ dcChroma.bits.length + dcChroma.val.length = 28 := by decide
  have hac : acLum.bits.length = 16 ∧ acChroma.bits.length = 16 := by decide
  have happ0 : app0Data.length = 14 := rfl
  have hsof : (sofData sub imageX imageY).length ≤ 15 := by
    cases sub <;> exact of_decide_eq_true rfl
  have hsos : (sosData sub).length ≤ 10 := by
    cases sub <;> exact of_decide_eq_true rfl
  rw [headerBytes, headerSegments]
  by_cases h3 : sub.numComponents = 3
  · rw [if_pos h3, if_pos h3]
    simp only [List.cons_append, List.nil_append, List.flatMap_cons, List.flatMap_nil,
      List.length_cons, List.length_append, List.length_nil, length_segment, happ0, hdht,
      hquant _ _ hq.quant.1, hquant _ _ hq.quantC.1, hq.dc, hq.dcC, hq.ac, hq.acC,
      length_acLum, length_acChroma]
    omega
  · rw [if_neg h3, if_neg h3]
    simp only [List.cons_append, List.nil_append, List.flatMap_cons, List.flatMap_nil,
      List.length_cons, List.length_append, List.length_nil, length_segment, happ0, hdht,
      hquant _ _ hq.quant.1, hq.dc, hq.ac, length_acLum]
    omega

/-- A file of the encoder is accepted, with its size and its tables, and
the coded data is what is read next: exactly if the pool is large enough. -/
theorem jdPrepare_header {ι : Type} (start : Stream → ι) (rest : List UInt8)
    {sub : Subsampling} {imageX imageY : Nat} {q : Setting}
    (szYuv szPool : Nat) (hq : q.Valid) (hx0 : imageX ≠ 0) (hy0 : imageY ≠ 0)
    (hx : imageX < 65536) (hy : imageY < 65536) (hsz : 179 ≤ szbuf) :
    ∃ (jd : Jdec ι) (s : Stream), jdPrepare szbuf szYuv start
        (headerBytes sub imageX imageY q ++ rest) szPool
        = (if poolCost szbuf szYuv sub ≤ szPool then .ok jd else .error .mem1)
      ∧ jd.input = start s ∧ s.unread = rest
      ∧ Prepared sub imageX imageY q jd := by
  obtain ⟨jd, s, hl, hu, hp⟩ := prepareLoop_header rest szYuv
    (szPool - (szbuf + 3) / 4 * 4) hq hx0 hy0 hx hy hsz
    (length_headerSegments sub imageX imageY q rest)
  refine ⟨{ jd with input := start s }, s, ?_, rfl, hu,
    ⟨hp.width, hp.height, hp.ncomp, hp.msx, hp.msy, hp.nrst, fun cmp hcmp =>
      have := hp.tables cmp hcmp
      ⟨this.codesDc, this.codesAc, this.dc, this.ac, this.quant⟩⟩⟩
  unfold poolCost
  rw [jdPrepare, headerBytes, List.append_assoc]
  by_cases hbuf : (szbuf + 3) / 4 * 4 ≤ szPool
  · rw [allocPool_ok _ _ hbuf]
    simp only [bind, Except.bind, findSoi_header, hl, pure, Except.pure]
    by_cases hload : sub.loadCost szYuv ≤ szPool - (szbuf + 3) / 4 * 4
    · rw [if_pos hload, if_pos (by omega)]
    · rw [if_neg hload, if_neg (by omega)]
  · rw [allocPool_short _ _ (by omega), if_neg (by omega)]
    rfl

end SitNChow.Jpeg
