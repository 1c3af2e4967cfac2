/-
The decoder's second version of `huffext` and `bitext`
(`JD_FASTDECODE == 1`), which is the default: the bits that have been read
are kept in a 32-bit register, and `huffext` fills it up to 16 bits before
it looks for a code word. So it reads ahead, past the end of the coded
data; there it finds a marker, remembers it, and goes on with ones.

What it returns is what the basic version returns (`shift_reads`): the
ones stand behind the coded bits, and a code word does not depend on what
stands behind it.
-/
import SitNChow.Jpeg.Reader

namespace SitNChow.Jpeg

open Kit Kit.Bits

/-- The second version's state: `wreg`, `dbit` and `marker`. -/
structure Shift extends Stream where
  wreg : UInt32
  dbit : Nat
  marker : UInt8

/-- The next byte for the register. At a marker the stream stalls. -/
def Shift.load (szbuf : Nat) (s : Shift) : Except JResult (UInt8 × Shift) :=
  if s.marker ≠ 0 then .ok (0xFF, s)
  else do
    let (d, st) ← s.toStream.next szbuf
    if d = 0xFF then
      let (d, st) ← st.next szbuf
      return (0xFF, { s with
        toStream := st, marker := if d ≠ 0 then d else s.marker })
    return (d, { s with toStream := st })

/-- `while (wbit < n)`: bytes are shifted into the register. -/
def Shift.prepare (szbuf n : Nat) : (turns : Nat) → (w : UInt32) →
    (wbit : Nat) → Shift → Except JResult (UInt32 × Nat × Shift)
  | 0, w, wbit, s => .ok (w, wbit, s)
  | turns + 1, w, wbit, s =>
      if wbit < n then do
        let (d, s) ← s.load szbuf
        prepare szbuf n turns (w <<< 8 ||| d.toUInt32) (wbit + 8) s
      else .ok (w, wbit, s)

/-- `jd->wreg & ((1UL << wbit) - 1)` -/
def Shift.masked (s : Shift) : UInt32 :=
  s.wreg &&& ((1 <<< UInt32.ofNat (s.dbit % 32)) - 1)

/-- The incremental search for a code word of `bl` bits or more: its
symbol, and its length. -/
def HuffTbl.find (t : HuffTbl) (w : UInt32) (wbit : Nat) :
    List Nat → (bl k : Nat) → Option (Nat × Nat)
  | [], _, _ => none
  | nc :: hb, bl, k =>
      match t.search (w >>> UInt32.ofNat (wbit - bl)).toNat k nc with
      | some v => some (v, bl)
      | none => find t w wbit hb (bl + 1) (k + nc)

/-- `huffext`. A register of 16 bits takes at most two bytes. -/
def Shift.huffext (szbuf : Nat) (t : HuffTbl) (s : Shift) :
    Except JResult (Nat × Shift) := do
  let (w, wbit, s) ← Shift.prepare szbuf 16 2 s.masked (s.dbit % 32) s
  match t.find w wbit t.huffbits 1 0 with
  | some (v, bl) => return (v, { s with wreg := w, dbit := wbit - bl })
  | none => throw .fmt1

/-- `bitext` -/
def Shift.bitext (szbuf nbit : Nat) (s : Shift) :
    Except JResult (Nat × Shift) := do
  let (w, wbit, s) ← Shift.prepare szbuf nbit 2 s.masked (s.dbit % 32) s
  return ((w >>> UInt32.ofNat ((wbit - nbit) % 32)).toNat,
    { s with wreg := w, dbit := wbit - nbit })

/-- The stream's part of `restart`. -/
def Shift.restart (szbuf rstn : Nat) (s : Shift) : Except JResult Shift := do
  let (marker, s) ← if s.marker ≠ 0 then
      pure (0xFF00 + s.marker.toNat, { s with marker := 0 })
    else do
      let (hi, st) ← s.toStream.next szbuf
      let (lo, st) ← st.next szbuf
      pure (hi.toNat * 256 + lo.toNat, { s with toStream := st })
  if wrongRestart marker rstn then throw .fmt1
  return { s with dbit := 0 }

/-- `huffext`, `bitext` and `restart`, `JD_FASTDECODE == 1` -/
def shift (szbuf : Nat) : Reader Shift where
  huffext t s := s.huffext szbuf t
  bitext nbit s := s.bitext szbuf nbit
  restart rstn s := s.restart szbuf rstn

/-- The second version at the beginning of a stream. -/
def Shift.start (s : Stream) : Shift :=
  { toStream := s, wreg := 0, dbit := 0, marker := 0 }

-- ========================================================= the register

variable {szbuf n wbit : Nat} {w : UInt32} {reg more bits : List Bool}
  {m : UInt8} {tail : List UInt8} {s : Shift}

/-- The register's low bits spell these bits. -/
structure Register (w : UInt32) (reg : List Bool) : Prop where
  value : w.toNat = ofBits reg
  short : reg.length ≤ 23

/-- The top bits of a register. -/
theorem Register.top {pre post : List Bool} (h : Register w (pre ++ post)) :
    (w >>> UInt32.ofNat post.length).toNat = ofBits pre := by
  have hshort := h.short
  rw [List.length_append] at hshort
  have hlen : (UInt32.ofNat post.length).toNat % 32 = post.length := by
    rw [UInt32.toNat_ofNat']
    omega
  rw [UInt32.toNat_shiftRight, hlen, Nat.shiftRight_eq_div_pow, h.value,
    ofBits_append, Nat.mul_comm, Nat.mul_add_div (Nat.two_pow_pos _),
    Nat.div_eq_of_lt (ofBits_lt post), Nat.add_zero]

/-- A byte is shifted in. -/
theorem Register.byte (h : Register w reg) (hlen : reg.length < 16) (b : UInt8) :
    Register (w <<< 8 ||| b.toUInt32) (reg ++ bitsOf b.toNat 8) := by
  have hlt := ofBits_lt reg
  have hpow : 2 ^ reg.length ≤ 2 ^ 15 := Nat.pow_le_pow_right (by omega)
    (by omega)
  have hb : b.toNat < 2 ^ 8 := b.toNat_lt
  have h8 : (8 : UInt32).toNat % 32 = 8 := rfl
  have hshift : (w <<< 8).toNat = ofBits reg <<< 8 := by
    rw [UInt32.toNat_shiftLeft, h8, h.value]
    refine Nat.mod_eq_of_lt ?_
    rw [Nat.shiftLeft_eq]
    omega
  refine ⟨?_, ?_⟩
  · rw [UInt32.toNat_or, hshift, UInt8.toNat_toUInt32,
      ← Nat.shiftLeft_add_eq_or_of_lt hb, Nat.shiftLeft_eq, ofBits_append,
      length_bitsOf, ofBits_bitsOf hb]
  · rw [List.length_append, length_bitsOf]
    omega

-- ============================================================ its bits

/-- What the stream has for the register: whole bytes up to a marker, and
nothing more when the marker has been found. -/
def Shift.Feeds (m : UInt8) (tail : List UInt8) (s : Shift)
    (more : List Bool) : Prop :=
  (s.marker = 0 ∧ ∃ bytes, more = toBits bytes
      ∧ s.unread = stuff bytes ++ [0xFF, m] ++ tail)
    ∨ (s.marker = m ∧ more = [])

/-- The state holds these bits, up to ones behind them. -/
def Shift.Holds (m : UInt8) (tail : List UInt8) (s : Shift)
    (bits : List Bool) : Prop :=
  ∃ reg more k, s.dbit = reg.length ∧ Register s.masked reg
    ∧ s.Feeds m tail more ∧ reg ++ more = bits ++ List.replicate k true

theorem ones_byte : bitsOf (0xFF : UInt8).toNat 8 = List.replicate 8 true := rfl

theorem Shift.load_spec (hsz : 0 < szbuf) (hm : m ≠ 0)
    (h : s.Feeds m tail more) :
    ∃ b s' more' k, s.load szbuf = .ok (b, s') ∧ s'.Feeds m tail more'
      ∧ bitsOf b.toNat 8 ++ more' = more ++ List.replicate k true := by
  obtain ⟨h0, bytes, rfl, hun⟩ | ⟨hstall, rfl⟩ := h
  · have hgo : ¬ s.marker ≠ 0 := fun h => h h0
    cases bytes with
    | nil =>
        obtain ⟨st, hst, hu⟩ := Stream.next_unread hsz hun
        obtain ⟨st', hst', hu'⟩ := Stream.next_unread hsz hu
        refine ⟨0xFF, { s with toStream := st', marker := m }, [], 8, ?_,
          .inr ⟨rfl, rfl⟩, ones_byte⟩
        simp only [load, if_neg hgo, hst, hst', bind, Except.bind, if_true,
          if_pos hm, pure, Except.pure]
    | cons b bytes =>
        rw [stuff_cons] at hun
        by_cases hff : b = 0xFF
        · rw [if_pos hff] at hun
          obtain ⟨st, hst, hu⟩ := Stream.next_unread hsz hun
          obtain ⟨st', hst', hu'⟩ := Stream.next_unread hsz hu
          refine ⟨b, { s with toStream := st' }, toBits bytes, 0, ?_,
            .inl ⟨h0, bytes, rfl, hu'⟩, (List.append_nil _).symm⟩
          simp only [load, if_neg hgo, hst, hst', hff, bind, Except.bind,
            if_true, pure, Except.pure, ne_eq, not_true_eq_false, if_false]
        · rw [if_neg hff] at hun
          obtain ⟨st, hst, hu⟩ := Stream.next_unread hsz hun
          refine ⟨b, { s with toStream := st }, toBits bytes, 0, ?_,
            .inl ⟨h0, bytes, rfl, hu⟩, (List.append_nil _).symm⟩
          simp only [load, if_neg hgo, hst, if_neg hff, bind, Except.bind,
            pure, Except.pure]
  · have hstop : s.marker ≠ 0 := by
      rw [hstall]
      exact hm
    exact ⟨0xFF, s, [], 8, if_pos hstop, .inr ⟨hstall, rfl⟩, ones_byte⟩

/-- The register is filled up to `n` bits: with the bits that come next,
then with ones. -/
theorem Shift.prepare_spec (hsz : 0 < szbuf) (hm : m ≠ 0) (hn : n ≤ 16)
    (turns : Nat) (hr : Register w reg) (hf : s.Feeds m tail more)
    (hturns : n ≤ reg.length + 8 * turns) :
    ∃ w' reg' s' more' k, Shift.prepare szbuf n turns w reg.length s
        = .ok (w', reg'.length, s')
      ∧ Register w' reg' ∧ n ≤ reg'.length ∧ s'.Feeds m tail more'
      ∧ reg' ++ more' = reg ++ more ++ List.replicate k true := by
  induction turns generalizing w reg s more with
  | zero =>
      refine ⟨w, reg, s, more, 0, rfl, hr, by omega, hf, ?_⟩
      rw [List.replicate_zero, List.append_nil]
  | succ turns ih =>
      rw [prepare]
      split
      next hlt =>
        obtain ⟨b, s₁, more₁, k₁, hs₁, hf₁, h₁⟩ := load_spec hsz hm hf
        obtain ⟨w₂, reg₂, s₂, more₂, k₂, hs₂, hr₂, hn₂, hf₂, h₂⟩ := ih
          (hr.byte (by omega) b) hf₁ (by
            rw [List.length_append, length_bitsOf]
            omega)
        refine ⟨w₂, reg₂, s₂, more₂, k₁ + k₂, ?_, hr₂, hn₂, hf₂, ?_⟩
        · rw [hs₁]
          rw [List.length_append, length_bitsOf] at hs₂
          exact hs₂
        · rw [h₂, List.append_assoc reg, h₁, List.replicate_add,
            ← List.append_assoc, ← List.append_assoc]
      next hge =>
        refine ⟨w, reg, s, more, 0, rfl, hr, by omega, hf, ?_⟩
        rw [List.replicate_zero, List.append_nil]

/-- The register without the bits that have been taken. -/
theorem Register.rest {pre post : List Bool} {s : Shift}
    (h : Register w (pre ++ post)) (hw : s.wreg = w)
    (hd : s.dbit = post.length) : Register s.masked post := by
  have hshort := h.short
  rw [List.length_append] at hshort
  have hone : (UInt32.ofNat (s.dbit % 32)).toNat % 32 = post.length := by
    rw [UInt32.toNat_ofNat', hd]
    omega
  have hpow : 2 ^ post.length ≤ 2 ^ 23 := Nat.pow_le_pow_right (by omega)
    (by omega)
  have hmask : ((1 <<< UInt32.ofNat (s.dbit % 32)) - 1 : UInt32).toNat
      = 2 ^ post.length - 1 := by
    have hshift : ((1 : UInt32) <<< UInt32.ofNat (s.dbit % 32)).toNat
        = 2 ^ post.length := by
      have h1 : (1 : UInt32).toNat = 1 := rfl
      rw [UInt32.toNat_shiftLeft, hone, Nat.shiftLeft_eq, h1, Nat.one_mul]
      exact Nat.mod_eq_of_lt (by omega)
    have hle : (1 : UInt32) ≤ 1 <<< UInt32.ofNat (s.dbit % 32) := by
      rw [UInt32.le_iff_toNat_le, hshift]
      exact Nat.two_pow_pos _
    rw [UInt32.toNat_sub_of_le _ _ hle, hshift]
    rfl
  refine ⟨?_, by omega⟩
  rw [Shift.masked, UInt32.toNat_and, hmask, hw, h.value, ofBits_append,
    Nat.and_two_pow_sub_one_eq_mod, Nat.mul_add_mod_self_right]
  exact Nat.mod_eq_of_lt (ofBits_lt post)

variable {t : HuffTbl} {hb : List Nat} {first k p v : Nat} {r : List Bool}

/-- The search finds the code word at the top of the register. -/
theorem HuffTbl.find_spec {pre post : List Bool}
    (hcode : t.huffcode.drop k = PrefixCode.words hb first)
    (hr : Register w (pre ++ post))
    (hp : PrefixCode.decode hb first (ofBits pre) k post = some (p, r))
    (hv : t.huffdata[p]? = some v) :
    ∃ word, post = word ++ r
      ∧ t.find w (pre ++ post).length hb (pre.length + 1) k
        = some (v, pre.length + word.length) := by
  induction hb generalizing first k pre post with
  | nil => cases hp
  | cons nc hb ih =>
      cases post with
      | nil => cases hp
      | cons b post =>
          have hr' : Register w ((pre ++ [b]) ++ post) := by
            rw [← List.append_cons]
            exact hr
          have hlen : (pre ++ b :: post).length - (pre.length + 1)
              = post.length := by
            rw [List.length_append, List.length_cons]
            omega
          have hbits : ofBits (pre ++ [b]) = 2 * ofBits pre + b.toNat := by
            rw [ofBits, readOn_append]
            rfl
          rw [PrefixCode.decode] at hp
          rw [find, hlen, hr'.top, hbits,
            HuffTbl.search_eq (words_getD hcode)]
          split at hp
          next hin =>
            cases hp
            refine ⟨[b], rfl, ?_⟩
            rw [if_pos hin, List.getD_eq_getElem?_getD, hv]
            rfl
          next hout =>
            rw [if_neg hout]
            rw [← hbits] at hp
            obtain ⟨word, hword, hfind⟩ := ih (words_drop hcode) hr' hp
            refine ⟨b :: word, by rw [hword, List.cons_append], ?_⟩
            rw [List.append_cons]
            have hnext : pre.length + 1 = (pre ++ [b]).length := by
              rw [List.length_append, List.length_singleton]
            dsimp only
            rw [hnext, hfind, List.length_cons]
            congr 2
            omega

/-- The second version returns what it holds, too: a code word, or a
number, does not depend on the ones behind the coded bits. -/
theorem shift_reads (hsz : 0 < szbuf) (hm : m ≠ 0) (tail : List UInt8) :
    (shift szbuf).Reads (Shift.Holds m tail) where
  huff {t s bits p rest v} hcan h hp hv := by
    obtain ⟨reg, more, k, hd, hr, hf, hbits⟩ := h
    have hlen : s.dbit % 32 = reg.length := by
      have := hr.short
      omega
    obtain ⟨w', reg', s', more', k', hprep, hr', h16, hf', hreg⟩ :=
      Shift.prepare_spec hsz hm (Nat.le_refl 16) 2 hr hf (by omega)
    have hall : reg' ++ more' = bits ++ List.replicate (k + k') true := by
      rw [hreg, hbits, List.append_assoc, List.replicate_add]
    have hdec := PrefixCode.decode_append hp (List.replicate (k + k') true)
    rw [← hall] at hdec
    obtain ⟨r, hdec', hrest⟩ := PrefixCode.decode_enough hdec (by
      rw [hcan.1]
      exact h16)
    have hcode : t.huffcode.drop 0 = PrefixCode.words t.huffbits 0 := by
      rw [List.drop_zero]
      exact hcan.2
    rw [← List.nil_append reg'] at hr'
    obtain ⟨word, hword, hfind⟩ := HuffTbl.find_spec hcode hr' hdec' hv
    have hfind' : t.find w' reg'.length t.huffbits 1 0
        = some (v, word.length) := by
      have := hfind
      rwa [List.nil_append, List.length_nil, Nat.zero_add, Nat.zero_add]
        at this
    have hcount : reg'.length - word.length = r.length := by
      rw [hword, List.length_append, Nat.add_sub_cancel_left]
    rw [List.nil_append, hword] at hr'
    refine ⟨{ s' with wreg := w', dbit := reg'.length - word.length }, ?_,
      r, more', k + k', hcount, hr'.rest rfl hcount, hf', hrest.symm⟩
    show Shift.huffext szbuf t s = _
    rw [Shift.huffext, hlen]
    simp only [hprep, bind, Except.bind, hfind', pure, Except.pure]
  bits {s v n rest} hpos hn hv h := by
    obtain ⟨reg, more, k, hd, hr, hf, hbits⟩ := h
    have hlen : s.dbit % 32 = reg.length := by
      have := hr.short
      omega
    obtain ⟨w', reg', s', more', k', hprep, hr', hle, hf', hreg⟩ :=
      Shift.prepare_spec hsz hm hn 2 hr hf (by omega)
    have hall : reg' ++ more'
        = bitsOf v n ++ (rest ++ List.replicate (k + k') true) := by
      rw [hreg, hbits, List.append_assoc, List.append_assoc,
        List.replicate_add]
    obtain ⟨r, hword, hrest⟩ : ∃ r, reg' = bitsOf v n ++ r
        ∧ r ++ more' = rest ++ List.replicate (k + k') true := by
      obtain ⟨spare, hspare, hmore⟩ | ⟨r, hr, hrest⟩ :=
        List.append_eq_append_iff.mp hall
      · have hzero : spare.length = 0 := by
          have := congrArg List.length hspare
          rw [List.length_append, length_bitsOf] at this
          omega
        obtain rfl := List.eq_nil_of_length_eq_zero hzero
        rw [List.append_nil] at hspare
        exact ⟨[], by rw [hspare, List.append_nil], hmore⟩
      · exact ⟨r, hr, hrest.symm⟩
    have hcount : reg'.length - n = r.length := by
      rw [hword, List.length_append, length_bitsOf, Nat.add_sub_cancel_left]
    rw [hword] at hr'
    have hvalue : (w' >>> UInt32.ofNat ((reg'.length - n) % 32)).toNat = v := by
      have hshort := hr'.short
      rw [List.length_append] at hshort
      rw [hcount, Nat.mod_eq_of_lt (by omega), hr'.top, ofBits_bitsOf hv]
    refine ⟨{ s' with wreg := w', dbit := reg'.length - n }, ?_,
      r, more', k + k', hcount, hr'.rest rfl hcount, hf', hrest⟩
    show Shift.bitext szbuf n s = _
    rw [Shift.bitext, hlen]
    simp only [hprep, bind, Except.bind, pure, Except.pure, hvalue]

end SitNChow.Jpeg
