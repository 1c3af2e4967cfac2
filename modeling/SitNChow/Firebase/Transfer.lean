/-
Transfers that break off in `streaming_get`.

The loop takes every negative read result behind the first byte for the
end of the data (`get_error`), so what has arrived by then is parsed like
a whole body (`accept`). `broken_transfer_iff` says for which parts of a
body that is harmless: those the parser refuses.
-/
import SitNChow.Firebase.Streaming

namespace SitNChow.Firebase

open Kit

variable {cap : Nat} {data : List UInt8} {b : Buffer}

-- ================================================= what is handed over

/-- `MBEDTLS_ERR_SSL_PEER_CLOSE_NOTIFY`. -/
def peerCloseNotify : Int := -0x7100

/-- The text of the data, which ends at a NUL of its own if there is
one. -/
def textOf (data : List UInt8) : CString := Block.textOf 0 data

/-- Data without a NUL is its own text. -/
theorem textOf_eq_self (h : ∀ b ∈ data, b ≠ 0) : textOf data = data :=
  Block.textOf_eq_self h

/-- What is handed over of data read up to a clean end, or up to an error
behind the first byte. -/
def accept (parse : Parser) (wanted : Bool) (data : List UInt8) : Return :=
  if wanted then parseText parse (textOf data) else ⟨espOk, .untouched⟩

/-- Data held is handed over as its text. -/
theorem Loaded.finish (parse : Parser) (wanted : Bool) (h : Loaded cap data b)
    (hne : data ≠ []) :
    b.finish parse wanted espOk = accept parse wanted data := by
  have hpos : espOk = espOk ∧ b.totalRead > 0 := by
    rw [h.total]
    exact ⟨rfl, List.length_pos_of_ne_nil hne⟩
  unfold Buffer.finish accept
  rw [if_pos hpos, Block.textOf_of_take (h.closed hne)]
  rfl

/-- A transfer that breaks off is handed over like one that ends, unless
it breaks off before the first byte or did not fit. -/
theorem get_error (hcap : StartCap cap) (h : Loaded cap [] b) (parse : Parser)
    (wanted : Bool) (xs : Chunks) {rlen : Int} (neg : rlen < 0) (r : Realloc) :
    (xs.Fits cap ∧ xs.body ≠ []
        ∧ b.get parse wanted (xs.turns ++ [⟨.error rlen neg, r⟩])
          = some (accept parse wanted xs.body))
      ∨ (¬ (xs.Fits cap ∧ xs.body ≠ [])
        ∧ ∃ ret, b.get parse wanted (xs.turns ++ [⟨.error rlen neg, r⟩]) = some ret
          ∧ ret.err = espFail) := by
  have hfinish : ∀ b' : Buffer, (b'.finish parse wanted espFail).err = espFail := by
    intro b'
    cases wanted <;> rfl
  unfold Buffer.get
  rw [readLoop_concat]
  rcases readLoop_chunks hcap h xs with ⟨hfits, b', hb', hl⟩ | ⟨hno, b', hb'⟩
  · rw [hb']
    show _ ∧ _ ∧ some (b'.finish parse wanted _) = _ ∨
      _ ∧ ∃ ret, some (b'.finish parse wanted _) = _ ∧ _
    by_cases hne : xs.body = []
    · have hzero : ¬ b'.totalRead > 0 := by
        rw [hl.total, hne]
        exact Nat.lt_irrefl 0
      rw [if_neg hzero]
      exact .inr ⟨fun hc => hc.2 hne, _, rfl, hfinish b'⟩
    · have hpos : b'.totalRead > 0 := by
        rw [hl.total]
        exact List.length_pos_of_ne_nil hne
      rw [if_pos hpos, hl.finish parse wanted hne]
      exact .inl ⟨hfits, hne, rfl⟩
  · rw [hb']
    exact .inr ⟨fun hc => hno hc.1, _, rfl, hfinish b'⟩

-- ===================================================== broken transfers

/-- The text of the data is no JSON text, and is looked at. -/
def Refused (parse : Parser) (wanted : Bool) (data : List UInt8) : Prop :=
  wanted = true ∧ textOf data ≠ cstr "null" ∧ parse (textOf data) = none

theorem accept_ok_iff (parse : Parser) (wanted : Bool) (data : List UInt8) :
    (accept parse wanted data).err = espOk ↔ ¬ Refused parse wanted data := by
  unfold accept Refused parseText
  cases wanted with
  | false => simp
  | true =>
      by_cases hnull : textOf data = cstr "null"
      · simp [hnull]
      · cases parse (textOf data) <;> simp [hnull, espFail_ne_espOk]

/-- A value handed over is the parse of the text. -/
theorem accept_value {parse : Parser} {wanted : Bool} {v : CJson}
    (h : (accept parse wanted data).outJson = .value v) :
    parse (textOf data) = some v := by
  unfold accept parseText at h
  cases wanted with
  | false => cases h
  | true =>
      by_cases hnull : textOf data = cstr "null"
      · simp [hnull] at h
      · cases hp : parse (textOf data) with
        | none => simp [hnull, hp] at h
        | some w =>
            simp only [hnull, hp, if_true, if_false, OutJson.value.injEq] at h
            rw [h]

/-- A transfer that breaks off with an error after a part of the body is
taken for a complete one only after the whole body and a close_notify,
and what is handed over is the parse of the whole body, exactly when that
part did not fit, is empty or is refused by the parser, or the error is a
close_notify after the whole body. -/
theorem broken_transfer_iff (parse : Parser) (wanted psram : Bool)
    (fresh : Nat → UInt8) (xs : Chunks) (rest : List UInt8) {rlen : Int}
    (neg : rlen < 0) (r : Realloc) :
    ∃ ret, (Buffer.start psram fresh).get parse wanted
        (xs.turns ++ [⟨.error rlen neg, r⟩]) = some ret
      ∧ (((ret.err = espOk → rest = [] ∧ rlen = peerCloseNotify)
          ∧ ∀ v, ret.err = espOk → ret.outJson = .value v →
            parse (textOf (xs.body ++ rest)) = some v)
        ↔ ¬ xs.Fits (startCap psram) ∨ xs.body = []
          ∨ Refused parse wanted xs.body
          ∨ (rest = [] ∧ rlen = peerCloseNotify)) := by
  rcases get_error (startCap_ok psram) (loaded_start psram fresh) parse wanted xs
      neg r with ⟨hfits, hne, hget⟩ | ⟨hno, ret, hget, herr⟩
  · refine ⟨_, hget, ?_⟩
    rw [accept_ok_iff]
    by_cases href : Refused parse wanted xs.body
    · refine ⟨fun _ => .inr (.inr (.inl href)), fun _ => ⟨fun hc => ?_, ?_⟩⟩
      · exact absurd href hc
      · exact fun _ hc => absurd href hc
    · refine ⟨fun ⟨hwhole, _⟩ => .inr (.inr (.inr (hwhole href))), fun h => ?_⟩
      have hwhole : rest = [] ∧ rlen = peerCloseNotify := by
        rcases h with h | h | h | h
        · exact absurd hfits h
        · exact absurd h hne
        · exact absurd h href
        · exact h
      refine ⟨fun _ => hwhole, fun v _ hv => ?_⟩
      rw [hwhole.1, List.append_nil]
      exact accept_value hv
  · have hfail : ¬ ret.err = espOk := by
      rw [herr]
      decide
    refine ⟨ret, hget, fun _ => ?_, fun _ => ⟨fun hc => absurd hc hfail, ?_⟩⟩
    · by_cases hfits : xs.Fits (startCap psram)
      · by_cases hne : xs.body = []
        · exact .inr (.inl hne)
        · exact absurd ⟨hfits, hne⟩ hno
      · exact .inl hfits
    · exact fun _ hc => absurd hc hfail

/-- A parser of decimal numbers, which takes the digits a text begins
with, as `cJSON_Parse` does. -/
def parseDigits : Parser := fun text =>
  match text.takeWhile fun b => 48 ≤ b ∧ b ≤ 57 with
  | [] => none
  | ds => some (.number (ds.foldl (fun n b => n * 10 + (b.toNat - 48)) 0 : Nat))

/-- One chunk, with no `realloc`. -/
def oneChunk (bytes : List UInt8) (pos : 0 < bytes.length)
    (le : bytes.length ≤ 512) : Chunks :=
  [(⟨bytes, pos, le⟩, none)]

/-- A number read in full before the close_notify is handed over. -/
theorem broken_transfer_closed :
    ∃ ret, (Buffer.start true fun _ => 0).get parseDigits true
        ((oneChunk [49, 50] (by decide) (by decide)).turns
          ++ [⟨.error peerCloseNotify (by decide), none⟩]) = some ret
      ∧ ∀ v, ret.err = espOk → ret.outJson = .value v →
        parseDigits [49, 50] = some v := by
  obtain ⟨ret, hget, hiff⟩ := broken_transfer_iff parseDigits true true
    (fun _ => 0) (oneChunk [49, 50] (by decide) (by decide)) []
    (show peerCloseNotify < 0 by decide) none
  exact ⟨ret, hget, (hiff.mpr (.inr (.inr (.inr ⟨rfl, rfl⟩)))).2⟩

/-- Of the body `12` only `1` arrives before the connection is reset, and
the call returns the value 1. -/
theorem broken_transfer_number :
    (Buffer.start true fun _ => 0).get parseDigits true
        ((oneChunk [49] (by decide) (by decide)).turns
          ++ [⟨.error (-0x50) (by decide), none⟩])
        = some ⟨espOk, .value (.number 1)⟩
      ∧ parseDigits [49, 50] = some (.number 12) := by
  have hcap := startCap_ok true
  have hsmall : (oneChunk [49] (by decide) (by decide)).body.length
      < startCap true := by decide
  have hfits := Chunks.fits_of_lt hcap hsmall
  have hne : (oneChunk [49] (by decide) (by decide)).body ≠ [] := by decide
  rcases get_error hcap (loaded_start true fun _ => 0) parseDigits true
      (oneChunk [49] (by decide) (by decide)) (show (-0x50 : Int) < 0 by decide)
      none with ⟨-, -, hget⟩ | ⟨hno, -⟩
  · refine ⟨hget.trans ?_, rfl⟩
    rfl
  · exact absurd ⟨hfits, hne⟩ hno

end SitNChow.Firebase
