/-
`streaming_get` (firebase_client.c): the read loop with its growing
buffer, and what is handed over.

# The loop

A turn is one `esp_http_client_read` and the outcome of the `realloc` it
may call for. The writes into `resp_buf` are checked (`Block.write`), so
that a write out of bounds is an outcome of its own (`fault`).

# What it holds

`Loaded` is the invariant: the buffer starts with the data read, closed
by a NUL, and its capacity is the smallest doubling of the initial one
that holds them. A chunk is stored unless it outgrows the capacity and
the next one is beyond the limit or not to be had (`Loaded.bytes`).
-/
import Mathlib.Data.List.Infix
import SitNChow.CJson
import SitNChow.Kit.Block

namespace SitNChow.Firebase

open Kit

-- ========================================================== what comes in

/-- `ESP_OK`. -/
def espOk : Int := 0

/-- `ESP_FAIL`. -/
def espFail : Int := -1

/-- `ESP_ERR_NO_MEM`. -/
def espErrNoMem : Int := 0x101

/-- The errors are none. -/
theorem espFail_ne_espOk : espFail ≠ espOk := by decide

theorem espErrNoMem_ne_espOk : espErrNoMem ≠ espOk := by decide

/-- The bytes of one read into `read_buf[512]`. -/
structure Chunk where
  bytes : List UInt8
  pos : 0 < bytes.length
  le : bytes.length ≤ 512

/-- What `esp_http_client_read` returns: a number of bytes, zero at the
end, or a negative error. -/
inductive ReadResult where
  | bytes (c : Chunk)
  | eof
  | error (rlen : Int) (neg : rlen < 0)

/-- The outcome of a `realloc`: NULL, or what the new cells hold. -/
abbrev Realloc := Option (Nat → UInt8)

/-- What one turn of the loop gets to see. -/
structure Turn where
  read : ReadResult
  realloc : Realloc

-- ============================================================== the loop

/-- `resp_buf`, whose length is `cap`, and `total_read`. -/
structure Buffer where
  respBuf : List UInt8
  totalRead : Nat

/-- Where the loop is: reading on, left with an error code, or dead of a
write out of bounds. -/
inductive Reading where
  | reading (b : Buffer)
  | ended (err : Int) (b : Buffer)
  | fault

/-- The limit of the capacity. -/
def maxCap : Nat := 524288

/-- Copy a chunk and close it with a NUL. -/
def Buffer.append (c : Chunk) (b : Buffer) : Reading :=
  match Block.write b.respBuf b.totalRead c.bytes with
  | none => .fault
  | some buf =>
      match Block.write buf (b.totalRead + c.bytes.length) [0] with
      | none => .fault
      | some buf => .reading ⟨buf, b.totalRead + c.bytes.length⟩

/-- One turn of the loop. -/
def Buffer.turn (t : Turn) (b : Buffer) : Reading :=
  match t.read with
  | .error _ _ => .ended (if b.totalRead > 0 then espOk else espFail) b
  | .eof => .ended espOk b
  | .bytes c =>
      if b.totalRead + c.bytes.length + 1 > b.respBuf.length then
        if b.respBuf.length * 2 > maxCap then .ended espFail b
        else
          match t.realloc with
          | none => .ended espFail b
          | some fresh =>
              Buffer.append c { b with
                respBuf := Block.grow b.respBuf (b.respBuf.length * 2) fresh }
      else b.append c

/-- A turn, unless the loop is left. -/
def Reading.turn (r : Reading) (t : Turn) : Reading :=
  match r with
  | .reading b => b.turn t
  | .ended _ _ | .fault => r

/-- The loop over a list of turns. -/
def readLoop (b : Buffer) (ts : List Turn) : Reading :=
  ts.foldl Reading.turn (.reading b)

/-- The current capacity. -/
def Reading.cap : Reading → Nat
  | .reading b | .ended _ b => b.respBuf.length
  | .fault => 0

/-- `cap` at the start: from PSRAM, or the fallback. -/
def startCap (psram : Bool) : Nat := if psram then 65536 else 8192

/-- The buffer obtained; its cells hold anything. -/
def Buffer.start (psram : Bool) (fresh : Nat → UInt8) : Buffer where
  respBuf := Block.grow [] (startCap psram) fresh
  totalRead := 0

-- ========================================================= the invariant

/-- The buffer holds the data read, in the smallest doubling of the
initial capacity. -/
structure Loaded (cap : Nat) (data : List UInt8) (b : Buffer) : Prop where
  total : b.totalRead = data.length
  held : b.respBuf.take data.length = data
  closed : data ≠ [] → b.respBuf.take (data.length + 1) = data ++ [0]
  capacity : ∃ k, b.respBuf.length = doubled cap k ∧ data.length < doubled cap k
    ∧ ∀ j < k, doubled cap j ≤ data.length
  limit : b.respBuf.length ≤ maxCap

/-- The initial capacities: a chunk is smaller, and doubling meets the
limit. -/
structure StartCap (cap : Nat) : Prop where
  roomy : 512 < cap
  meets : ∃ m, doubled cap m = maxCap

/-- A capacity that cannot be doubled is the limit. -/
theorem StartCap.maxCap_le {cap k : Nat} (hcap : StartCap cap)
    (h : maxCap < doubled cap k * 2) : maxCap ≤ doubled cap k := by
  obtain ⟨m, hm⟩ := hcap.meets
  have hkm : m ≤ k := by
    by_contra hlt
    have hmono := doubled_mono cap (Nat.lt_of_not_le hlt)
    rw [hm] at hmono
    exact absurd h (Nat.not_lt_of_le hmono)
  rw [← hm]
  exact doubled_mono cap hkm

/-- The first buffer has one of the two sizes. -/
theorem startCap_ok (psram : Bool) : StartCap (startCap psram) := by
  cases psram with
  | true => exact ⟨by decide, 3, rfl⟩
  | false => exact ⟨by decide, 6, rfl⟩

/-- It holds nothing yet. -/
theorem loaded_start (psram : Bool) (fresh : Nat → UInt8) :
    Loaded (startCap psram) [] (Buffer.start psram fresh) := by
  have hlen : (Buffer.start psram fresh).respBuf.length = startCap psram :=
    Block.length_grow (Nat.zero_le _)
  have hok := startCap_ok psram
  refine ⟨rfl, List.take_zero, fun h => absurd rfl h, ⟨0, hlen, ?_, ?_⟩, ?_⟩
  · exact Nat.lt_of_le_of_lt (Nat.zero_le 512) hok.roomy
  · exact fun j hj => absurd hj (Nat.not_lt_zero j)
  · obtain ⟨m, hm⟩ := hok.meets
    rw [hlen, ← hm]
    exact doubled_mono _ (Nat.zero_le m)

variable {cap : Nat} {data : List UInt8} {b : Buffer} {c : Chunk}

/-- A chunk that fits is appended and closed. -/
theorem Buffer.append_fits (htotal : b.totalRead = data.length)
    (hheld : b.respBuf.take data.length = data)
    (hfits : data.length + c.bytes.length + 1 ≤ b.respBuf.length) :
    ∃ b', b.append c = .reading b' ∧ b'.respBuf.length = b.respBuf.length
      ∧ b'.totalRead = (data ++ c.bytes).length
      ∧ b'.respBuf.take ((data ++ c.bytes).length + 1)
        = data ++ c.bytes ++ [0] := by
  have hroom : data.length + c.bytes.length ≤ b.respBuf.length := by omega
  obtain ⟨buf, hcopy⟩ := Block.exists_write hroom
  have hlen := Block.length_write hcopy
  have hcopied : buf.take (data.length + c.bytes.length) = data ++ c.bytes :=
    (Block.take_write hcopy).trans (congrArg (· ++ c.bytes) hheld)
  have hnul : data.length + c.bytes.length + [(0 : UInt8)].length ≤ buf.length := by
    rw [hlen]
    exact hfits
  obtain ⟨buf', hclose⟩ := Block.exists_write hnul
  refine ⟨⟨buf', b.totalRead + c.bytes.length⟩, ?_, ?_, ?_, ?_⟩
  · simp only [Buffer.append, htotal, hcopy, hclose]
  · exact (Block.length_write hclose).trans hlen
  · show b.totalRead + _ = _
    rw [htotal, List.length_append]
  · rw [List.length_append, ← hcopied]
    exact Block.take_write hclose

/-- A chunk appended to a buffer of capacity `doubled cap k`, which is
the smallest that holds it. -/
theorem loaded_append {k : Nat} (htotal : b.totalRead = data.length)
    (hheld : b.respBuf.take data.length = data)
    (hlen : b.respBuf.length = doubled cap k)
    (hfits : data.length + c.bytes.length < doubled cap k)
    (hmin : ∀ j < k, doubled cap j ≤ data.length + c.bytes.length)
    (hlimit : b.respBuf.length ≤ maxCap) :
    ∃ b', b.append c = .reading b' ∧ Loaded cap (data ++ c.bytes) b' := by
  obtain ⟨b', happ, hlen', htotal', htake⟩ :=
    Buffer.append_fits htotal hheld (hlen ▸ hfits)
  refine ⟨b', happ, htotal', ?_, fun _ => htake, ⟨k, hlen'.trans hlen, ?_, ?_⟩,
    hlen' ▸ hlimit⟩
  · have hshort := congrArg (List.take (data ++ c.bytes).length) htake
    rw [List.take_take, Nat.min_eq_left (Nat.le_succ _), List.take_left] at hshort
    exact hshort
  · rw [List.length_append]
    exact hfits
  · rw [List.length_append]
    exact hmin

/-- The chunk is stored: the capacity is not outgrown, or the next one is
allowed and to be had. -/
def Stored (cap : Nat) (data : List UInt8) (c : Chunk) (r : Realloc) : Prop :=
  (Crosses cap data.length (data.length + c.bytes.length) → r ≠ none)
    ∧ data.length + c.bytes.length < maxCap

section Turn

variable {r : Realloc}

/-- A chunk that fits with its NUL is appended. -/
theorem Buffer.turn_fits
    (h : b.totalRead + c.bytes.length + 1 ≤ b.respBuf.length) :
    b.turn ⟨.bytes c, r⟩ = b.append c :=
  if_neg (Nat.not_lt_of_le h)

/-- A buffer that cannot grow any more ends the request. -/
theorem Buffer.turn_limit
    (hout : b.respBuf.length < b.totalRead + c.bytes.length + 1)
    (hbig : maxCap < b.respBuf.length * 2) :
    b.turn ⟨.bytes c, r⟩ = .ended espFail b :=
  (if_pos hout).trans (if_pos hbig)

/-- So does a `realloc` that fails. -/
theorem Buffer.turn_refused
    (hout : b.respBuf.length < b.totalRead + c.bytes.length + 1) :
    b.turn ⟨.bytes c, none⟩ = .ended espFail b :=
  (if_pos hout).trans (ite_self _)

/-- A buffer that grows takes the chunk. -/
theorem Buffer.turn_grown {fresh : Nat → UInt8}
    (hout : b.respBuf.length < b.totalRead + c.bytes.length + 1)
    (hroom : b.respBuf.length * 2 ≤ maxCap) :
    b.turn ⟨.bytes c, some fresh⟩ = Buffer.append c { b with
      respBuf := Block.grow b.respBuf (b.respBuf.length * 2) fresh } :=
  (if_pos hout).trans (if_neg (Nat.not_lt_of_le hroom))

end Turn

/-- A chunk is stored exactly when it can be; else the loop fails. -/
theorem Loaded.bytes (hcap : StartCap cap) (h : Loaded cap data b) (c : Chunk)
    (r : Realloc) :
    (Stored cap data c r ∧ ∃ b', b.turn ⟨.bytes c, r⟩ = .reading b'
        ∧ Loaded cap (data ++ c.bytes) b')
      ∨ (¬ Stored cap data c r ∧ b.turn ⟨.bytes c, r⟩ = .ended espFail b) := by
  obtain ⟨k, hlen, hlt, hmin⟩ := h.capacity
  have hlimit := h.limit
  have htotal := h.total
  have hcross : Crosses cap data.length (data.length + c.bytes.length)
      ↔ doubled cap k ≤ data.length + c.bytes.length := crosses_iff hlt hmin
  by_cases hfull : doubled cap k ≤ data.length + c.bytes.length
  · have hout : b.respBuf.length < b.totalRead + c.bytes.length + 1 := by omega
    by_cases hbig : maxCap < b.respBuf.length * 2
    · -- the capacity is the limit itself
      have hmax := hcap.maxCap_le (hlen ▸ hbig)
      refine .inr ⟨fun hst => ?_, Buffer.turn_limit hout hbig⟩
      exact absurd hst.2 (Nat.not_lt_of_le (hmax.trans hfull))
    · cases r with
      | none =>
          refine .inr ⟨fun hst => ?_, Buffer.turn_refused hout⟩
          exact hst.1 (hcross.mpr hfull) rfl
      | some fresh =>
          -- one doubling is enough for a chunk
          have hroomy : cap ≤ doubled cap k := doubled_mono cap (Nat.zero_le k)
          have hchunk := c.le
          have hstart := hcap.roomy
          have hdouble : doubled cap (k + 1) = b.respBuf.length * 2 := by
            rw [hlen]
            rfl
          have hgrown : (Block.grow b.respBuf (b.respBuf.length * 2) fresh).length
              = doubled cap (k + 1) :=
            (Block.length_grow (by omega)).trans hdouble.symm
          refine .inl ⟨⟨fun _ => Option.some_ne_none _, by omega⟩, ?_⟩
          rw [Buffer.turn_grown hout (Nat.le_of_not_lt hbig)]
          refine loaded_append htotal ?_ hgrown ?_ (fun j hj => ?_) ?_
          · exact (Block.take_grow (by omega)).trans h.held
          · omega
          · exact (doubled_mono cap (Nat.le_of_lt_succ hj)).trans hfull
          · rw [hgrown, hdouble]
            exact Nat.le_of_not_lt hbig
  · rw [Buffer.turn_fits (by omega)]
    refine .inl ⟨⟨fun hc => absurd (hcross.mp hc) hfull, by omega⟩, ?_⟩
    refine loaded_append htotal h.held hlen (Nat.lt_of_not_le hfull)
      (fun j hj => ?_) h.limit
    have := hmin j hj
    omega

-- ============================================================= whole runs

/-- One turn more of the loop. -/
theorem readLoop_concat (b : Buffer) (ts : List Turn) (t : Turn) :
    readLoop b (ts ++ [t]) = (readLoop b ts).turn t := by
  simp [readLoop]

/-- A loop has ended within the limit, or read on with a byte for every
turn. -/
theorem readLoop_bounded (hcap : StartCap cap) (h : Loaded cap [] b)
    (ts : List Turn) :
    (∃ err b', readLoop b ts = .ended err b' ∧ b'.respBuf.length ≤ maxCap)
      ∨ ∃ data b', readLoop b ts = .reading b' ∧ Loaded cap data b'
        ∧ ts.length ≤ data.length := by
  induction ts using List.reverseRecOn with
  | nil => exact .inr ⟨[], b, rfl, h, Nat.le_refl _⟩
  | append_singleton ts t ih =>
      rw [readLoop_concat]
      rcases ih with ⟨err, b', hb', hle⟩ | ⟨data, b', hb', hl, hlen⟩
      · rw [hb']
        exact .inl ⟨err, b', rfl, hle⟩
      · rw [hb']
        show (∃ err b'', b'.turn t = _ ∧ _) ∨ ∃ data b'', b'.turn t = _ ∧ _
        obtain ⟨read, r⟩ := t
        cases read with
        | eof => exact .inl ⟨_, b', rfl, hl.limit⟩
        | error rlen neg => exact .inl ⟨_, b', rfl, hl.limit⟩
        | bytes c =>
            rcases hl.bytes hcap c r with ⟨-, b'', hturn, hl''⟩ | ⟨-, hturn⟩
            · refine .inr ⟨data ++ c.bytes, b'', hturn, hl'', ?_⟩
              have hpos := c.pos
              simp only [List.length_append, List.length_singleton]
              omega
            · exact .inl ⟨_, b', hturn, hl.limit⟩

/-- Chunks read one after the other, each with the outcome of the
`realloc` it may call for. -/
abbrev Chunks := List (Chunk × Realloc)

/-- The data of the chunks. -/
def Chunks.body (xs : Chunks) : List UInt8 :=
  (xs.map fun x => x.1.bytes).flatten

/-- The turns that read them. -/
def Chunks.turns (xs : Chunks) : List Turn :=
  xs.map fun x => ⟨.bytes x.1, x.2⟩

/-- No `realloc` that was needed failed: none where the data outgrew one
of the capacities. -/
def Chunks.NoReallocFailed (cap : Nat) (xs : Chunks) : Prop :=
  ∀ (pre : Chunks) (x : Chunk × Realloc), pre ++ [x] <+: xs →
    Crosses cap pre.body.length (pre.body.length + x.1.bytes.length) →
    x.2 ≠ none

/-- The chunks are all stored. -/
def Chunks.Fits (cap : Nat) (xs : Chunks) : Prop :=
  xs.NoReallocFailed cap ∧ xs.body.length < maxCap

variable {xs : Chunks} {x : Chunk × Realloc}

/-- The body ends with the last chunk. -/
theorem Chunks.body_concat : Chunks.body (xs ++ [x]) = xs.body ++ x.1.bytes := by
  simp [Chunks.body]

/-- So do the turns of the loop. -/
theorem Chunks.turns_concat :
    Chunks.turns (xs ++ [x]) = xs.turns ++ [⟨.bytes x.1, x.2⟩] := by
  simp [Chunks.turns]

/-- All chunks are stored if the last one is, behind the others. -/
theorem Chunks.fits_concat : Chunks.Fits cap (xs ++ [x])
    ↔ xs.Fits cap ∧ Stored cap xs.body x.1 x.2 := by
  unfold Chunks.Fits Stored
  rw [Chunks.body_concat, List.length_append]
  refine ⟨fun ⟨hno, hlt⟩ => ?_, fun ⟨⟨hno, _⟩, hx, hlt⟩ => ⟨?_, hlt⟩⟩
  · refine ⟨⟨fun pre y hpre => ?_, by omega⟩, hno xs x List.prefix_rfl, hlt⟩
    exact hno pre y (hpre.trans (List.prefix_append _ _))
  · intro pre y hpre
    rcases List.prefix_concat_iff.mp hpre with heq | hpre
    · obtain ⟨rfl, rfl⟩ := List.append_singleton_inj.mp heq
      exact hx
    · exact hno pre y hpre

/-- Less data than the initial capacity needs no `realloc`. -/
theorem Chunks.fits_of_lt (hcap : StartCap cap) (h : xs.body.length < cap) :
    xs.Fits cap := by
  induction xs using List.reverseRecOn with
  | nil =>
      refine ⟨fun pre x hpre => ?_, ?_⟩
      · simp at hpre
      · obtain ⟨m, hm⟩ := hcap.meets
        rw [← hm]
        exact Nat.lt_of_lt_of_le h (doubled_mono cap (Nat.zero_le m))
  | append_singleton xs x ih =>
      rw [Chunks.body_concat, List.length_append] at h
      rw [Chunks.fits_concat]
      refine ⟨ih (by omega), fun ⟨k, _, hk⟩ => ?_, ?_⟩
      · have hle := doubled_mono cap (Nat.zero_le k)
        change cap ≤ _ at hle
        omega
      · obtain ⟨m, hm⟩ := hcap.meets
        rw [← hm]
        exact Nat.lt_of_lt_of_le h (doubled_mono cap (Nat.zero_le m))

/-- Chunks that fit are held; others end the loop. -/
theorem readLoop_chunks (hcap : StartCap cap) (h : Loaded cap [] b)
    (xs : Chunks) :
    (xs.Fits cap ∧ ∃ b', readLoop b xs.turns = .reading b'
        ∧ Loaded cap xs.body b')
      ∨ (¬ xs.Fits cap ∧ ∃ b', readLoop b xs.turns = .ended espFail b') := by
  induction xs using List.reverseRecOn with
  | nil =>
      refine .inl ⟨Chunks.fits_of_lt hcap ?_, b, rfl, h⟩
      exact Nat.lt_trans (Nat.zero_lt_succ 511) hcap.roomy
  | append_singleton xs x ih =>
      rw [Chunks.fits_concat, Chunks.turns_concat, readLoop_concat,
        Chunks.body_concat]
      rcases ih with ⟨hfits, b', hb', hl⟩ | ⟨hno, b', hb'⟩
      · rw [hb']
        rcases hl.bytes hcap x.1 x.2 with ⟨hst, b'', hturn, hl''⟩ | ⟨hst, hturn⟩
        · exact .inl ⟨⟨hfits, hst⟩, b'', hturn, hl''⟩
        · exact .inr ⟨fun hf => hst hf.2, b', hturn⟩
      · rw [hb']
        exact .inr ⟨fun hf => hno hf.1, b', rfl⟩

-- ========================================================= handing over

/-- `*out_json` after the call: as it was before, NULL, or a value. -/
inductive OutJson where
  | untouched
  | null
  | value (v : CJson)

/-- What the call returns. -/
structure Return where
  err : Int
  outJson : OutJson

/-- `cJSON_Parse`, with NULL for no value. -/
abbrev Parser := CString → Option CJson

/-- The text of a response, parsed unless it is `null`. -/
def parseText (parse : Parser) (text : CString) : Return :=
  if text = cstr "null" then ⟨espOk, .null⟩
  else
    match parse text with
    | none => ⟨espFail, .null⟩
    | some v => ⟨espOk, .value v⟩

/-- `streaming_get` after its loop; `wanted` says that `out_json` is not
NULL. -/
def Buffer.finish (parse : Parser) (wanted : Bool) (err : Int) (b : Buffer) :
    Return :=
  if wanted then
    if err = espOk ∧ b.totalRead > 0 then
      parseText parse (Block.textOf 0 b.respBuf)
    else ⟨err, .null⟩
  else ⟨err, .untouched⟩

/-- The loop and what follows it; nothing while it reads on. -/
def Buffer.get (parse : Parser) (wanted : Bool) (ts : List Turn) (b : Buffer) :
    Option Return :=
  match readLoop b ts with
  | .ended err b => some (b.finish parse wanted err)
  | .reading _ | .fault => none

/-- What a request of `streaming_get` meets: the results of
`esp_http_client_open`, of the status line and of the two allocations,
and the turns of the loop. -/
structure Exchange where
  openErr : Int
  status : Int
  psram : Realloc
  internal : Realloc
  turns : List Turn

/-- The buffer in PSRAM, or else the fallback. -/
def Exchange.allocate (x : Exchange) : Option Buffer :=
  match x.psram with
  | some fresh => some (.start true fresh)
  | none => x.internal.map (.start false)

/-- `streaming_get`. -/
def streamingGet (parse : Parser) (wanted : Bool) (x : Exchange) :
    Option Return :=
  if x.openErr ≠ espOk then some ⟨x.openErr, .untouched⟩
  else if x.status < 200 ∨ 300 ≤ x.status then some ⟨espFail, .untouched⟩
  else
    match x.allocate with
    | none => some ⟨espErrNoMem, .untouched⟩
    | some b => b.get parse wanted x.turns

/-- Whatever is read and whatever `realloc` returns: the loop writes
inside the buffer, whose capacity stays within the limit; it ends, even
if the peer goes on sending; and at the end of the data it has the whole
body, if no `realloc` that was needed failed and the body has at most
524287 bytes, and fails with `*out_json` NULL otherwise. -/
theorem streaming_exact (psram : Bool) (fresh : Nat → UInt8) :
    (∀ ts, readLoop (.start psram fresh) ts ≠ .fault
        ∧ (readLoop (.start psram fresh) ts).cap ≤ maxCap)
      ∧ (∀ ts : Nat → Turn, ∃ n err b,
        readLoop (.start psram fresh) ((List.range n).map ts) = .ended err b)
      ∧ ∀ (xs : Chunks) (r : Realloc), ∃ err b,
        readLoop (.start psram fresh) (xs.turns ++ [⟨.eof, r⟩]) = .ended err b
          ∧ (err = espOk ↔ xs.NoReallocFailed (startCap psram)
            ∧ xs.body.length ≤ 524287)
          ∧ (err = espOk → b.totalRead = xs.body.length
            ∧ b.respBuf.take b.totalRead = xs.body)
          ∧ (err ≠ espOk → err = espFail
            ∧ ∀ parse, b.finish parse true err = ⟨espFail, .null⟩) := by
  have hcap := startCap_ok psram
  have hstart := loaded_start psram fresh
  refine ⟨fun ts => ?_, fun ts => ?_, fun xs r => ?_⟩
  · rcases readLoop_bounded hcap hstart ts with
      ⟨err, b', hb', hle⟩ | ⟨data, b', hb', hl, -⟩
    · rw [hb']
      exact ⟨fun hf => (by cases hf), hle⟩
    · rw [hb']
      exact ⟨fun hf => (by cases hf), hl.limit⟩
  · refine ⟨maxCap, ?_⟩
    rcases readLoop_bounded hcap hstart ((List.range maxCap).map ts) with
      ⟨err, b', hb', -⟩ | ⟨data, b', -, hl, hlen⟩
    · exact ⟨err, b', hb'⟩
    · -- as many bytes as turns do not fit
      exfalso
      obtain ⟨k, hk, hlt, -⟩ := hl.capacity
      have hlimit := hl.limit
      rw [List.length_map, List.length_range] at hlen
      omega
  · rw [readLoop_concat]
    rcases readLoop_chunks hcap hstart xs with
      ⟨hfits, b', hb', hl⟩ | ⟨hno, b', hb'⟩
    · rw [hb']
      refine ⟨espOk, b', rfl, ⟨fun _ => ?_, fun _ => rfl⟩, fun _ => ?_,
        fun hne => absurd rfl hne⟩
      · exact ⟨hfits.1, Nat.le_of_lt_succ hfits.2⟩
      · rw [hl.total]
        exact ⟨rfl, hl.held⟩
    · rw [hb']
      refine ⟨espFail, b', rfl,
        ⟨fun hc => absurd hc espFail_ne_espOk, fun hf => ?_⟩,
        fun hc => absurd hc espFail_ne_espOk, fun _ => ⟨rfl, fun parse => ?_⟩⟩
      · exact absurd ⟨hf.1, Nat.lt_succ_of_le hf.2⟩ hno
      · rfl

end SitNChow.Firebase
