/-
The output side of the JPEG encoder: the memory stream of `fmt2jpg`, the
output buffer in front of it, and the bit buffer of the entropy coder.

`Emitted` says which bytes have gone through `emit_byte` so far: the
stream has the first of them as far as it has room, the buffer the rest.
`Coded` says the same of the bits of the coded data: their whole bytes
are emitted, stuffed, and what is left waits in the bit buffer
(`Coded.putBits`).
-/
import SitNChow.Kit.Bits

namespace SitNChow.Jpeg

open Kit.Bits

-- ======================================================= memory_stream

/-- `memory_stream`: the bytes written so far, and the size of the
buffer they are written to. -/
structure MemoryStream where
  outBuf : List UInt8
  maxLen : Nat

/-- `memory_stream::put_buf`: what has no room is cut off. A null buffer
is the end of the image. -/
def MemoryStream.putBuf (pBuf : Option (List UInt8)) (s : MemoryStream) :
    Bool × MemoryStream :=
  match pBuf with
  | none => (true, s)
  | some data =>
      let len := if s.maxLen - s.outBuf.length < data.length
        then s.maxLen - s.outBuf.length else data.length
      (true, { s with outBuf := s.outBuf ++ data.take len })

/-- The stream takes what fits its buffer, and never fails. -/
theorem MemoryStream.putBuf_some (data : List UInt8) (s : MemoryStream) :
    s.putBuf (some data) = (true, { s with
      outBuf := s.outBuf ++ data.take (s.maxLen - s.outBuf.length) }) := by
  rw [putBuf]
  split
  next => rfl
  next h => rw [List.take_length, List.take_of_length_le (by omega)]

-- ====================================================== the output buffer

/-- `JPGE_OUT_BUF_SIZE` -/
def outBufSize : Nat := 512

/-- What the encoder writes with: `m_pStream`,
`m_all_stream_writes_succeeded`, the filled part of `m_out_buf`,
`m_bit_buffer` and `m_bits_in`. -/
structure Writer where
  stream : MemoryStream
  succeeded : Bool
  outBuf : List UInt8
  bitBuffer : UInt32
  bitsIn : Nat

/-- `flush_output_buffer` -/
def flushOutputBuffer (w : Writer) : Writer :=
  if w.outBuf ≠ [] ∧ w.succeeded then
    let r := w.stream.putBuf (some w.outBuf)
    { w with stream := r.2, succeeded := r.1, outBuf := [] }
  else { w with outBuf := [] }

/-- `emit_byte` -/
def emitByte (i : UInt8) (w : Writer) : Writer :=
  let w := { w with outBuf := w.outBuf ++ [i] }
  if w.outBuf.length = outBufSize then flushOutputBuffer w else w

/-- `emit_word` -/
def emitWord (i : Nat) (w : Writer) : Writer :=
  emitByte (UInt8.ofNat (i % 256)) (emitByte (UInt8.ofNat (i / 256)) w)

/-- `emit_marker` -/
def emitMarker (marker : UInt8) (w : Writer) : Writer :=
  emitByte marker (emitByte 0xFF w)

/-- The bytes `bs` have been emitted to a stream with room for `room`
bytes. -/
structure Emitted (room : Nat) (bs : List UInt8) (w : Writer) : Prop where
  succeeded : w.succeeded = true
  maxLen : w.stream.maxLen = room
  short : w.outBuf.length < outBufSize
  sent : ∃ sent, bs = sent ++ w.outBuf ∧ w.stream.outBuf = sent.take room

variable {room : Nat} {bs : List UInt8} {w : Writer}

/-- What is cut off stays cut off. -/
theorem take_append_take {xs ys : List UInt8} :
    xs.take room ++ ys.take (room - (xs.take room).length)
      = (xs ++ ys).take room := by
  rw [List.take_append, List.length_take]
  congr 2
  omega

/-- After a flush all that was emitted is in the stream. -/
theorem Emitted.flush (h : Emitted room bs w) (hw : w.outBuf ≠ [])
    (x : List UInt8) :
    Emitted room (bs ++ x)
      (flushOutputBuffer { w with outBuf := w.outBuf ++ x }) := by
  obtain ⟨sent, rfl, hs⟩ := h.sent
  have hne : w.outBuf ++ x ≠ [] := by
    intro h0
    exact hw (List.append_eq_nil_iff.mp h0).1
  rw [flushOutputBuffer, if_pos ⟨hne, h.succeeded⟩]
  refine ⟨?_, ?_, ?_, _, (List.append_nil _).symm, ?_⟩
  · rw [MemoryStream.putBuf_some]
  · rw [MemoryStream.putBuf_some]
    exact h.maxLen
  · exact Nat.zero_lt_succ 511
  · rw [MemoryStream.putBuf_some]
    dsimp only
    rw [h.maxLen, hs, take_append_take, List.append_assoc]

/-- After the last flush the stream has everything that it has room
for. -/
theorem Emitted.flushed (h : Emitted room bs w) :
    (flushOutputBuffer w).succeeded = true
      ∧ (flushOutputBuffer w).stream.outBuf = bs.take room := by
  by_cases hw : w.outBuf = []
  · obtain ⟨sent, rfl, hs⟩ := h.sent
    have hno : ¬ (w.outBuf ≠ [] ∧ w.succeeded = true) := fun hp => hp.1 hw
    rw [flushOutputBuffer, if_neg hno]
    refine ⟨h.succeeded, hs.trans ?_⟩
    rw [hw, List.append_nil]
  · have hfl := h.flush hw []
    rw [List.append_nil, List.append_nil] at hfl
    obtain ⟨sent, hsent, hs⟩ := hfl.sent
    have hempty : (flushOutputBuffer w).outBuf = [] := by
      rw [flushOutputBuffer]
      split <;> rfl
    rw [hempty, List.append_nil] at hsent
    exact ⟨hfl.succeeded, by rw [hs, hsent]⟩

/-- `emit_byte` writes a byte. -/
theorem Emitted.byte (h : Emitted room bs w) (i : UInt8) :
    Emitted room (bs ++ [i]) (emitByte i w) := by
  rw [emitByte]
  dsimp only
  split
  next hfull =>
    have hne : w.outBuf ≠ [] := by
      intro h0
      rw [h0] at hfull
      cases hfull
    exact h.flush hne [i]
  next hroom =>
    obtain ⟨sent, rfl, hs⟩ := h.sent
    refine ⟨h.succeeded, h.maxLen, ?_, sent, List.append_assoc _ _ _, hs⟩
    have := h.short
    rw [List.length_append, List.length_singleton] at hroom ⊢
    omega

/-- `emit_word` writes two bytes, the high one first. -/
theorem Emitted.word (h : Emitted room bs w) (i : Nat) :
    Emitted room (bs ++ [UInt8.ofNat (i / 256), UInt8.ofNat (i % 256)])
      (emitWord i w) := by
  have := (h.byte (UInt8.ofNat (i / 256))).byte (UInt8.ofNat (i % 256))
  rwa [List.append_assoc] at this

/-- `emit_marker` writes the marker behind an 0xFF. -/
theorem Emitted.marker (h : Emitted room bs w) (m : UInt8) :
    Emitted room (bs ++ [0xFF, m]) (emitMarker m w) := by
  have := (h.byte 0xFF).byte m
  rwa [List.append_assoc] at this

@[simp] theorem bitsIn_flush (w : Writer) :
    (flushOutputBuffer w).bitsIn = w.bitsIn := by
  unfold flushOutputBuffer
  split <;> rfl

@[simp] theorem bitsIn_emitByte (i : UInt8) (w : Writer) :
    (emitByte i w).bitsIn = w.bitsIn := by
  unfold emitByte
  dsimp only
  split
  · rw [bitsIn_flush]
  · rfl

@[simp] theorem bitBuffer_flush (w : Writer) :
    (flushOutputBuffer w).bitBuffer = w.bitBuffer := by
  unfold flushOutputBuffer
  split <;> rfl

@[simp] theorem bitBuffer_emitByte (i : UInt8) (w : Writer) :
    (emitByte i w).bitBuffer = w.bitBuffer := by
  unfold emitByte
  dsimp only
  split
  · rw [bitBuffer_flush]
  · rfl

-- ========================================================= the bit buffer

/-- The loop of `put_bits`: whole bytes leave the bit buffer, a zero
byte behind each byte 0xFF. Every turn takes eight bits, so there are at
most as many turns as bits. -/
def putBytes : Nat → Writer → Writer
  | 0, w => w
  | n + 1, w =>
      if 8 ≤ w.bitsIn then
        let c := ((w.bitBuffer >>> 16) &&& 0xFF).toUInt8
        let e := emitByte c w
        let e := if c = 0xFF then emitByte 0 e else e
        putBytes n { e with
          bitBuffer := w.bitBuffer <<< 8, bitsIn := w.bitsIn - 8 }
      else w

/-- `put_bits` -/
def putBits (bits len : Nat) (w : Writer) : Writer :=
  let bitsIn := w.bitsIn + len
  putBytes bitsIn { w with
    bitBuffer := w.bitBuffer
      ||| (UInt32.ofNat bits <<< UInt32.ofNat (24 - bitsIn)),
    bitsIn := bitsIn }

/-- Behind the bytes `hd` the bits `bits` have been coded; `pending` are
the ones that are still in the bit buffer. -/
structure Waiting (room : Nat) (hd : List UInt8) (bits pending : List Bool)
    (w : Writer) : Prop where
  bytes : ∃ bytes, Emitted room (hd ++ stuff bytes) w
    ∧ bits = toBits bytes ++ pending
  count : w.bitsIn = pending.length
  buffer : w.bitBuffer.toNat % 2 ^ 24
    = ofBits pending * 2 ^ (24 - pending.length)

/-- Behind the bytes `hd` the bits `bits` have been coded. -/
def Coded (room : Nat) (hd : List UInt8) (bits : List Bool) (w : Writer) :
    Prop :=
  ∃ pending, pending.length < 8 ∧ Waiting room hd bits pending w

variable {hd : List UInt8} {bits pending : List Bool}

/-- The byte that `put_bits` takes out of its buffer. -/
theorem toNat_toUInt8 (x : UInt32) :
    ((x >>> 16) &&& 0xFF).toUInt8.toNat = x.toNat % 2 ^ 24 / 2 ^ 16 := by
  rw [UInt32.toNat_toUInt8, UInt32.toNat_and, UInt32.toNat_shiftRight]
  have : (255 : UInt32).toNat = 2 ^ 8 - 1 := rfl
  rw [this, Nat.and_two_pow_sub_one_eq_mod, Nat.shiftRight_eq_div_pow]
  have : (16 : UInt32).toNat % 32 = 16 := rfl
  rw [this]
  omega

/-- Bits that wait are not written. -/
theorem Emitted.withBits (h : Emitted room bs w) (b : UInt32) (n : Nat) :
    Emitted room bs { w with bitBuffer := b, bitsIn := n } :=
  ⟨h.succeeded, h.maxLen, h.short, h.sent⟩

/-- The number that waits in the bit buffer, split behind its first
byte. -/
theorem ofBits_split (h : 8 ≤ pending.length) (hn : pending.length ≤ 24) :
    ofBits pending * 2 ^ (24 - pending.length)
      = ofBits (pending.take 8) * 2 ^ 16
        + ofBits (pending.drop 8) * 2 ^ (24 - pending.length) := by
  have happ : ofBits (pending.take 8 ++ pending.drop 8) = _ := ofBits_append
  rw [List.take_append_drop] at happ
  rw [happ, Nat.add_mul, Nat.mul_assoc, ← Nat.pow_add, List.length_drop]
  congr 3
  omega

/-- One turn of the loop. -/
theorem Waiting.turn (h : Waiting room hd bits pending w)
    (h8 : 8 ≤ pending.length) (hn : pending.length ≤ 24) :
    let c := ((w.bitBuffer >>> 16) &&& 0xFF).toUInt8
    let e := emitByte c w
    let e := if c = 0xFF then emitByte 0 e else e
    Waiting room hd bits (pending.drop 8)
      { e with bitBuffer := w.bitBuffer <<< 8, bitsIn := w.bitsIn - 8 } := by
  intro c e₁ e₂
  have hsplit := ofBits_split h8 hn
  have htake : (pending.take 8).length = 8 := by
    rw [List.length_take]
    omega
  have hhigh : ofBits (pending.take 8) < 2 ^ 8 := by
    have := ofBits_lt (pending.take 8)
    rwa [htake] at this
  have hlow : ofBits (pending.drop 8) * 2 ^ (24 - pending.length) < 2 ^ 16 := by
    have hlt := ofBits_lt (pending.drop 8)
    rw [List.length_drop] at hlt
    calc ofBits (pending.drop 8) * 2 ^ (24 - pending.length)
        < 2 ^ (pending.length - 8) * 2 ^ (24 - pending.length) :=
          Nat.mul_lt_mul_of_pos_right hlt (Nat.two_pow_pos _)
      _ = 2 ^ 16 := by
          rw [← Nat.pow_add]
          congr 1
          omega
  have hc : c.toNat = ofBits (pending.take 8) := by
    rw [toNat_toUInt8, h.buffer, hsplit]
    omega
  have hbits : bitsOf c.toNat 8 = pending.take 8 := by
    have := bitsOf_ofBits (pending.take 8)
    rwa [htake, ← hc] at this
  obtain ⟨bytes, hem, rfl⟩ := h.bytes
  refine ⟨⟨bytes ++ [c], ?_, ?_⟩, ?_, ?_⟩
  · apply Emitted.withBits
    rw [stuff_append, ← List.append_assoc, stuff_cons, stuff_nil,
      List.append_nil]
    show Emitted room _ (if c = 0xFF then emitByte 0 (emitByte c w)
      else emitByte c w)
    split
    next hff =>
      have := (hem.byte c).byte 0
      rwa [List.append_assoc] at this
    next => exact hem.byte c
  · rw [toBits_append, toBits_cons, toBits_nil, List.append_nil, hbits,
      List.append_assoc, List.take_append_drop]
  · rw [List.length_drop, ← h.count]
  · have h8' : (8 : UInt32).toNat % 32 = 8 := rfl
    rw [UInt32.toNat_shiftLeft, h8', Nat.shiftLeft_eq, List.length_drop]
    have hb := h.buffer
    rw [hsplit] at hb
    have hpow : 2 ^ (24 - (pending.length - 8))
        = 2 ^ (24 - pending.length) * 2 ^ 8 := by
      rw [← Nat.pow_add]
      congr 1
      omega
    rw [hpow, ← Nat.mul_assoc]
    omega

/-- The loop of `put_bits` writes every whole byte that waits, with its
stuffing. -/
theorem putBytes_coded (n : Nat) (h : Waiting room hd bits pending w)
    (hn : pending.length ≤ 24) (hturns : pending.length < 8 * (n + 1)) :
    Coded room hd bits (putBytes n w) := by
  induction n generalizing pending w with
  | zero => exact ⟨pending, by omega, h⟩
  | succ n ih =>
      rw [putBytes, h.count]
      split
      next h8 =>
        have hdrop : (pending.drop 8).length = pending.length - 8 :=
          List.length_drop
        have hturn := h.turn h8 hn
        rw [h.count] at hturn
        exact ih hturn (by omega) (by omega)
      next h8 => exact ⟨pending, by omega, h⟩

/-- New bits go behind the ones that wait. -/
theorem Waiting.append {v len : Nat} (h : Waiting room hd bits pending w)
    (hv : v < 2 ^ len) (hlen : pending.length + len ≤ 24) :
    Waiting room hd (bits ++ bitsOf v len) (pending ++ bitsOf v len)
      { w with
        bitBuffer := w.bitBuffer
          ||| (UInt32.ofNat v <<< UInt32.ofNat (24 - (w.bitsIn + len))),
        bitsIn := w.bitsIn + len } := by
  have hcount := h.count
  have hb := h.buffer
  obtain ⟨bytes, hem, rfl⟩ := h.bytes
  have hv24 : v * 2 ^ (24 - (pending.length + len))
      < 2 ^ (24 - pending.length) := by
    calc v * 2 ^ (24 - (pending.length + len))
        < 2 ^ len * 2 ^ (24 - (pending.length + len)) :=
          Nat.mul_lt_mul_of_pos_right hv (Nat.two_pow_pos _)
      _ = 2 ^ (24 - pending.length) := by
          rw [← Nat.pow_add]
          congr 1
          omega
  have hle24 : 2 ^ (24 - pending.length) ≤ 2 ^ 24 :=
    Nat.pow_le_pow_right (by omega) (by omega)
  have hle : v ≤ v * 2 ^ (24 - (pending.length + len)) :=
    Nat.le_mul_of_pos_right _ (Nat.two_pow_pos _)
  refine ⟨⟨bytes, hem.withBits _ _, (List.append_assoc _ _ _)⟩, ?_, ?_⟩
  · show w.bitsIn + len = _
    rw [List.length_append, length_bitsOf, hcount]
  · dsimp only
    have hshift : (UInt32.ofNat (24 - (w.bitsIn + len))).toNat % 32
        = 24 - (pending.length + len) := by
      rw [hcount, UInt32.toNat_ofNat']
      omega
    have hvnat : (UInt32.ofNat v).toNat = v := by
      rw [UInt32.toNat_ofNat']
      omega
    rw [UInt32.toNat_or, Nat.or_mod_two_pow, hb, UInt32.toNat_shiftLeft,
      hshift, hvnat, Nat.shiftLeft_eq,
      Nat.mod_mod_of_dvd _ (Nat.pow_dvd_pow 2 (by omega)),
      Nat.mod_eq_of_lt (Nat.lt_of_lt_of_le hv24 hle24), ← Nat.shiftLeft_eq,
      ← Nat.shiftLeft_add_eq_or_of_lt hv24, Nat.shiftLeft_eq,
      ofBits_append, ofBits_bitsOf hv, List.length_append, length_bitsOf,
      Nat.add_mul, Nat.mul_assoc, ← Nat.pow_add]
    congr 3
    omega

/-- `put_bits` codes the bits it is given. -/
theorem Coded.putBits {v len : Nat} (h : Coded room hd bits w)
    (hv : v < 2 ^ len) (hlen : len ≤ 16) :
    Coded room hd (bits ++ bitsOf v len) (putBits v len w) := by
  obtain ⟨pending, hp, h⟩ := h
  have happ := h.append hv (by omega)
  have hlength : (pending ++ bitsOf v len).length = pending.length + len := by
    rw [List.length_append, length_bitsOf]
  refine putBytes_coded _ happ (by omega) ?_
  rw [h.count]
  omega

/-- `bytes` are these bits, filled up with ones. -/
def FilledUp (bits : List Bool) (bytes : List UInt8) : Prop :=
  ∃ pad, toBits bytes = bits ++ pad ∧ pad.length < 8 ∧ ∀ b ∈ pad, b = true

/-- Seven more bits, all of them ones, push out the last bit. -/
theorem Coded.filled (h : Coded room hd bits w) :
    ∃ bytes, FilledUp bits bytes
      ∧ Emitted room (hd ++ stuff bytes) (Jpeg.putBits 0x7F 7 w) := by
  obtain ⟨pending, hp, hw⟩ := h.putBits (show 0x7F < 2 ^ 7 by omega) (by omega)
  obtain ⟨bytes, hem, hbits⟩ := hw.bytes
  have hones : bitsOf 0x7F 7 = List.replicate 7 true := rfl
  have hlen := congrArg List.length hbits
  rw [List.length_append, List.length_append, length_bitsOf] at hlen
  obtain ⟨pad, hpad, hone⟩ | ⟨spare, hspare, hpend⟩ :=
    List.append_eq_append_iff.mp hbits
  · refine ⟨bytes, ⟨pad, hpad, ?_, ?_⟩, hem⟩
    · rw [hpad, List.length_append] at hlen
      omega
    · intro b hb
      have hmem : b ∈ bitsOf 0x7F 7 := by
        rw [hone]
        exact List.mem_append_left pending hb
      rw [hones] at hmem
      exact List.eq_of_mem_replicate hmem
  · -- the bits that wait are fewer than the ones that were added
    have hzero : spare.length = 0 := by
      have := congrArg List.length hpend
      rw [List.length_append, length_bitsOf] at this
      omega
    obtain rfl := List.eq_nil_of_length_eq_zero hzero
    rw [List.append_nil] at hspare
    refine ⟨bytes, ⟨[], ?_, Nat.zero_lt_succ 7, ?_⟩, hem⟩
    · rw [List.append_nil, hspare]
    · intro b hb
      cases hb

end SitNChow.Jpeg
