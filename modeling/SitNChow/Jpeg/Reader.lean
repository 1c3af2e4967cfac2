/-
The input side of the JPEG decoder: the stream behind its input buffer,
and the functions that take bits from it, `huffext` and `bitext`.

The decoder has them in two versions. The basic one keeps the byte it
reads from and a mask; the other one (`Shift`) keeps what it has read in
a 32-bit register, reads ahead, and stalls at a marker. Everything above
them only calls the two functions, so it is written for any `Reader`, and
`Reader.Reads` says what it needs of one: from a state that holds a code
word, or a number, and further bits, that symbol or number is returned,
and the state holds the further bits (`basic_reads`, `shift_reads`).
-/
import Mathlib.Data.Nat.Bitwise
import SitNChow.Kit.PrefixCode

namespace SitNChow.Jpeg

open Kit Kit.Bits

/-- `JRESULT`, less `JDR_OK` -/
inductive JResult where
  | intr | inp | mem1 | mem2 | par | fmt1 | fmt2 | fmt3
  deriving DecidableEq

/-- The tables of one component and class: `huffbits`, `huffcode` and
`huffdata`. -/
structure HuffTbl where
  huffbits : List Nat
  huffcode : List Nat
  huffdata : List Nat

/-- The two functions that take bits from the input, and the one that
takes a restart marker. -/
structure Reader (ι : Type) where
  huffext : HuffTbl → ι → Except JResult (Nat × ι)
  bitext : (nbit : Nat) → ι → Except JResult (Nat × ι)
  restart : (rstn : Nat) → ι → Except JResult ι

/-- The code words of a table are the canonical ones. -/
def HuffTbl.Canonical (t : HuffTbl) : Prop :=
  t.huffbits.length = 16 ∧ t.huffcode = PrefixCode.words t.huffbits 0

/-- What a reader returns from a state that holds given bits. -/
structure Reader.Reads {ι : Type} (R : Reader ι)
    (H : ι → List Bool → Prop) : Prop where
  huff : ∀ {t s bits p rest v}, t.Canonical → H s bits →
    PrefixCode.decode t.huffbits 0 0 0 bits = some (p, rest) →
    t.huffdata[p]? = some v → ∃ s', R.huffext t s = .ok (v, s') ∧ H s' rest
  bits : ∀ {s v n rest}, 0 < n → n ≤ 16 → v < 2 ^ n →
    H s (bitsOf v n ++ rest) → ∃ s', R.bitext n s = .ok (v, s') ∧ H s' rest

-- ========================================================= the stream

/-- The stream: what the input function has yet to deliver, and what it
has delivered and is not read yet (`dctr` bytes). -/
structure Stream where
  device : List UInt8
  inbuf : List UInt8

/-- All that is not read yet. -/
def Stream.unread (s : Stream) : List UInt8 := s.inbuf ++ s.device

/-- The next byte; an empty buffer is filled first, with at most
`JD_SZBUF` bytes. -/
def Stream.next (szbuf : Nat) (s : Stream) : Except JResult (UInt8 × Stream) :=
  match s.inbuf with
  | b :: bs => .ok (b, { s with inbuf := bs })
  | [] =>
      match s.device.take szbuf with
      | [] => .error .inp
      | b :: bs => .ok (b, { device := s.device.drop szbuf, inbuf := bs })

variable {szbuf : Nat} {b : UInt8} {bs tail : List UInt8}

/-- Where the buffer ends makes no difference. -/
theorem Stream.next_unread (hsz : 0 < szbuf) {s : Stream}
    (h : s.unread = b :: bs) :
    ∃ s', s.next szbuf = .ok (b, s') ∧ s'.unread = bs := by
  obtain ⟨device, inbuf⟩ := s
  cases inbuf with
  | cons c cs =>
      injection h with hb hbs
      exact ⟨⟨device, cs⟩, by rw [Stream.next, hb], hbs⟩
  | nil =>
      have hdev : device = b :: bs := h
      obtain ⟨n, rfl⟩ : ∃ n, szbuf = n + 1 := ⟨szbuf - 1, by omega⟩
      refine ⟨⟨device.drop (n + 1), bs.take n⟩, ?_, ?_⟩
      · rw [Stream.next, hdev, List.take_succ_cons]
      · rw [Stream.unread, hdev, List.drop_succ_cons, List.take_append_drop]

-- ================================================== the basic version

/-- The basic version's state: `*dptr` and the mask `dbit`. -/
structure Basic extends Stream where
  cur : UInt8
  dbit : UInt8

/-- The next byte of data: behind a byte 0xFF there must be a zero. -/
def Basic.fetch (szbuf : Nat) (s : Basic) : Except JResult Basic := do
  let (c, st) ← s.toStream.next szbuf
  if c = 0xFF then
    let (z, st) ← st.next szbuf
    if z ≠ 0 then throw .fmt1
    return { toStream := st, cur := 0xFF, dbit := 0x80 }
  return { toStream := st, cur := c, dbit := 0x80 }

/-- One turn of the loops: the next bit. -/
def Basic.bit (szbuf : Nat) (s : Basic) : Except JResult (Bool × Basic) := do
  let s ← if s.dbit = 0 then s.fetch szbuf else pure s
  return (s.cur &&& s.dbit ≠ 0, { s with dbit := s.dbit >>> 1 })

/-- The inner search: whether `d` is among the `nd` code words from `k`
on, and if so its symbol. -/
def HuffTbl.search (t : HuffTbl) (d k nd : Nat) : Option Nat :=
  (List.range nd).findSome? fun i =>
    if d = t.huffcode.getD (k + i) 0 then some (t.huffdata.getD (k + i) 0)
    else none

/-- The loop of `huffext`, over the numbers of words of each length. -/
def Basic.huffextLoop (szbuf : Nat) (t : HuffTbl) :
    List Nat → (d k : Nat) → Basic → Except JResult (Nat × Basic)
  | [], _, _, _ => .error .fmt1
  | nd :: hb, d, k, s => do
      let (b, s) ← s.bit szbuf
      let d := 2 * d + b.toNat
      match t.search d k nd with
      | some v => return (v, s)
      | none => huffextLoop szbuf t hb d (k + nd) s

/-- The loop of `bitext`. -/
def Basic.bitextLoop (szbuf : Nat) :
    (nbit d : Nat) → Basic → Except JResult (Nat × Basic)
  | 0, d, s => .ok (d, s)
  | nbit + 1, d, s => do
      let (b, s) ← s.bit szbuf
      bitextLoop szbuf nbit (2 * d + b.toNat) s

/-- Whether two bytes are not the marker `RSTn` that is expected. -/
def wrongRestart (marker rstn : Nat) : Bool :=
  marker &&& 0xFFD8 ≠ 0xFFD0 || marker &&& 7 ≠ rstn &&& 7

/-- The stream's part of `restart`. -/
def Basic.restart (szbuf : Nat) (rstn : Nat) (s : Basic) :
    Except JResult Basic := do
  let (hi, st) ← s.toStream.next szbuf
  let (lo, st) ← st.next szbuf
  if wrongRestart (hi.toNat * 256 + lo.toNat) rstn then throw .fmt1
  return { toStream := st, cur := lo, dbit := 0 }

/-- `huffext`, `bitext` and `restart`, `JD_FASTDECODE == 0` -/
def basic (szbuf : Nat) : Reader Basic where
  huffext t s := s.huffextLoop szbuf t t.huffbits 0 0
  bitext nbit s := s.bitextLoop szbuf nbit 0
  restart rstn s := s.restart szbuf rstn

-- ------------------------------------------------------ searching a word

variable {t : HuffTbl} {d k nd first : Nat} {hb : List Nat}

/-- The words of one length are consecutive, so the search is a
comparison. -/
theorem HuffTbl.search_eq (h : ∀ i < nd, t.huffcode.getD (k + i) 0 = first + i) :
    t.search d k nd
      = if first ≤ d ∧ d < first + nd
        then some (t.huffdata.getD (k + (d - first)) 0) else none := by
  induction nd with
  | zero =>
      rw [if_neg (by omega)]
      rfl
  | succ nd ih =>
      have hlast : t.search d k (nd + 1) = (t.search d k nd).or
          (if d = t.huffcode.getD (k + nd) 0
            then some (t.huffdata.getD (k + nd) 0) else none) := by
        unfold search
        rw [List.range_succ, List.findSome?_append, List.findSome?_cons]
        split <;> simp_all
      rw [hlast, ih fun i hi => h i (by omega), h nd (Nat.lt_succ_self nd)]
      by_cases hlt : first ≤ d ∧ d < first + nd
      · rw [if_pos hlt, Option.some_or, if_pos ⟨hlt.1, by omega⟩]
      · rw [if_neg hlt, Option.none_or]
        by_cases he : d = first + nd
        · rw [if_pos he, if_pos (by omega), he, Nat.add_sub_cancel_left]
        · rw [if_neg he, if_neg (by omega)]

theorem words_getD (h : t.huffcode.drop k = PrefixCode.words (nd :: hb) first) :
    ∀ i < nd, t.huffcode.getD (k + i) 0 = first + i := by
  intro i hi
  rw [List.getD_eq_getElem?_getD, ← List.getElem?_drop, h, PrefixCode.words,
    List.getElem?_append_left (by simpa using hi)]
  simp [hi]

theorem words_drop (h : t.huffcode.drop k = PrefixCode.words (nd :: hb) first) :
    t.huffcode.drop (k + nd) = PrefixCode.words hb (2 * (first + nd)) := by
  rw [← List.drop_drop, h, PrefixCode.words, List.drop_left']
  rw [List.length_map, List.length_range]

-- ------------------------------------------------------------ its bits

/-- The bits of the current byte that are not read yet. -/
def Basic.Pending (s : Basic) (pending : List Bool) : Prop :=
  ∃ n ≤ 8, s.dbit.toNat = 2 ^ n / 2 ∧ pending = bitsOf s.cur.toNat n

/-- The state holds these bits, and behind them the stream goes on with
`tail`. -/
def Basic.Holds (tail : List UInt8) (s : Basic) (bits : List Bool) : Prop :=
  ∃ pending bytes, s.Pending pending ∧ bits = pending ++ toBits bytes
    ∧ s.unread = stuff bytes ++ tail

variable {s : Basic} {bits : List Bool} {c : Bool}

/-- The mask picks the next bit of the byte. -/
theorem and_mask_ne_zero {cur dbit : UInt8} {n : Nat} (h : dbit.toNat = 2 ^ n) :
    decide (cur &&& dbit ≠ 0) = cur.toNat.testBit n := by
  have hand : (cur &&& dbit).toNat = (cur.toNat.testBit n).toNat * 2 ^ n := by
    rw [UInt8.toNat_and, h, Nat.and_two_pow]
  cases hb : cur.toNat.testBit n with
  | false =>
      rw [hb, Bool.toNat_false, Nat.zero_mul] at hand
      have : cur &&& dbit = 0 := UInt8.toNat_inj.mp hand
      rw [this]
      rfl
  | true =>
      rw [hb, Bool.toNat_true, Nat.one_mul] at hand
      have : cur &&& dbit ≠ 0 := by
        intro h0
        rw [h0] at hand
        have := Nat.two_pow_pos n
        exact absurd hand.symm (Nat.ne_of_gt this)
      rw [decide_eq_true this]

theorem Basic.fetch_spec (hsz : 0 < szbuf) (h : s.unread = stuff (b :: bs) ++ tail) :
    ∃ s', s.fetch szbuf = .ok s' ∧ s'.cur = b ∧ s'.dbit = 0x80
      ∧ s'.unread = stuff bs ++ tail := by
  rw [stuff_cons] at h
  by_cases hff : b = 0xFF
  · rw [if_pos hff] at h
    obtain ⟨st, hst, hu⟩ := Stream.next_unread hsz h
    obtain ⟨st', hst', hu'⟩ := Stream.next_unread hsz hu
    refine ⟨⟨st', 0xFF, 0x80⟩, ?_, hff.symm, rfl, hu'⟩
    simp only [fetch, hst, hst', hff, bind, Except.bind]
    rfl
  · rw [if_neg hff] at h
    obtain ⟨st, hst, hu⟩ := Stream.next_unread hsz h
    refine ⟨⟨st, b, 0x80⟩, ?_, rfl, rfl, hu⟩
    simp only [fetch, hst, hff, bind, Except.bind]
    rfl

/-- A turn takes the next bit. -/
theorem Basic.bit_spec (hsz : 0 < szbuf) (h : s.Holds tail (c :: bits)) :
    ∃ s', s.bit szbuf = .ok (c, s') ∧ s'.Holds tail bits := by
  obtain ⟨pending, bytes, ⟨n, hn, hmask, rfl⟩, hbits, hun⟩ := h
  cases n with
  | zero =>
      -- nothing left of the byte: the next one is fetched
      cases bytes with
      | nil => cases hbits
      | cons b bytes =>
          obtain ⟨s', hs', hcur, hdbit, hun'⟩ := fetch_spec hsz hun
          have hzero : s.dbit = 0 := UInt8.toNat_inj.mp hmask
          rw [bitsOf, List.nil_append, toBits_cons, bitsOf,
            List.cons_append] at hbits
          injection hbits with hc hbits
          have hm : s'.dbit.toNat = 2 ^ 7 := by
            rw [hdbit]
            rfl
          refine ⟨{ s' with dbit := s'.dbit >>> 1 }, ?_, _, bytes,
            ⟨7, by omega, ?_, rfl⟩, ?_, hun'⟩
          · rw [bit, if_pos hzero, hs']
            show Except.ok (decide (s'.cur &&& s'.dbit ≠ 0), _) = _
            rw [and_mask_ne_zero hm, hc, hcur]
          · rw [hdbit]
            rfl
          · rw [hbits, ← hcur]
  | succ n =>
      have hm : s.dbit.toNat = 2 ^ n := by
        rw [hmask, Nat.pow_succ, Nat.mul_div_cancel _ (by omega)]
      have hne : s.dbit ≠ 0 := by
        intro h0
        rw [h0] at hm
        have := Nat.two_pow_pos n
        exact absurd hm (Nat.ne_of_lt this)
      rw [bitsOf, List.cons_append] at hbits
      injection hbits with hc hbits
      refine ⟨{ s with dbit := s.dbit >>> 1 }, ?_, _, bytes,
        ⟨n, by omega, ?_, rfl⟩, hbits, hun⟩
      · rw [bit, if_neg hne]
        show Except.ok (decide (s.cur &&& s.dbit ≠ 0), _) = _
        rw [and_mask_ne_zero hm, hc]
      · show (s.dbit >>> 1).toNat = _
        rw [UInt8.toNat_shiftRight, hm, Nat.shiftRight_eq_div_pow]
        rfl

theorem Basic.bitextLoop_spec (hsz : 0 < szbuf) (cs : List Bool) (d : Nat)
    (h : s.Holds tail (cs ++ bits)) :
    ∃ s', s.bitextLoop szbuf cs.length d = .ok (readOn d cs, s')
      ∧ s'.Holds tail bits := by
  induction cs generalizing s d with
  | nil => exact ⟨s, rfl, h⟩
  | cons c cs ih =>
      obtain ⟨s₁, hs₁, h₁⟩ := bit_spec hsz h
      obtain ⟨s₂, hs₂, h₂⟩ := ih (2 * d + c.toNat) h₁
      refine ⟨s₂, ?_, h₂⟩
      rw [List.length_cons, bitextLoop, hs₁]
      exact hs₂

theorem Basic.huffextLoop_spec (hsz : 0 < szbuf) {p v : Nat} {rest : List Bool}
    (hcode : t.huffcode.drop k = PrefixCode.words hb first)
    (h : s.Holds tail bits)
    (hp : PrefixCode.decode hb first d k bits = some (p, rest))
    (hv : t.huffdata[p]? = some v) :
    ∃ s', s.huffextLoop szbuf t hb d k = .ok (v, s') ∧ s'.Holds tail rest := by
  induction hb generalizing s bits d k first with
  | nil => cases hp
  | cons nd hb ih =>
      cases bits with
      | nil => cases hp
      | cons c bits =>
          obtain ⟨s₁, hs₁, h₁⟩ := bit_spec hsz h
          rw [PrefixCode.decode] at hp
          rw [huffextLoop, hs₁]
          simp only [bind, Except.bind,
            HuffTbl.search_eq (words_getD hcode)]
          split at hp
          next hin =>
            cases hp
            rw [if_pos hin, List.getD_eq_getElem?_getD, hv]
            exact ⟨s₁, rfl, h₁⟩
          next hout =>
            rw [if_neg hout]
            exact ih (words_drop hcode) h₁ hp

/-- The basic version returns what it holds. -/
theorem basic_reads (hsz : 0 < szbuf) (tail : List UInt8) :
    (basic szbuf).Reads (Basic.Holds tail) where
  huff hcan h hp hv := by
    refine Basic.huffextLoop_spec hsz ?_ h hp hv
    rw [List.drop_zero]
    exact hcan.2
  bits {s v n rest} _ _ hv h := by
    obtain ⟨s', hs', h'⟩ := Basic.bitextLoop_spec hsz (bitsOf v n) 0 h
    refine ⟨s', ?_, h'⟩
    rw [length_bitsOf] at hs'
    show s.bitextLoop szbuf n 0 = _
    rw [hs']
    congr 2
    exact ofBits_bitsOf hv

end SitNChow.Jpeg
