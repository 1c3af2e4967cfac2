/-
`http_event_handler`, `do_request` and `firebase_get`
(firebase_client.c), byte by byte, and how the two ways of getting a node
compare.

The response buffer is zeroed and never grows. What has arrived is in it
up to its last cell but one, and zeros behind it (`Filled`), so its text
is that of the first 8191 bytes of the body, and `firebase_get` hands
that over (`firebaseGet_ok`).
-/
import SitNChow.Firebase.Transfer
import SitNChow.Http

namespace SitNChow.Firebase

open Kit
open Http (bodyBufSize)

-- ========================================================== the response

/-- `resp_ctx_t`; `cap` is the length of `buf`. -/
structure RespCtx where
  buf : List UInt8
  len : Nat

/-- `do_request` before the request is performed. -/
def RespCtx.init : RespCtx := ⟨List.replicate bodyBufSize 0, 0⟩

/-- `http_event_handler` on a data event; nothing when it writes out of
bounds. -/
def RespCtx.onData (ctx : RespCtx) (evtData : List UInt8) : Option RespCtx :=
  if evtData.length > 0 then
    let remaining := ctx.buf.length - ctx.len - 1
    let toCopy := if evtData.length < remaining then evtData.length else remaining
    if toCopy > 0 then
      (Block.write ctx.buf ctx.len (evtData.take toCopy)).bind fun buf =>
        (Block.write buf (ctx.len + toCopy) [0]).map fun buf =>
          ⟨buf, ctx.len + toCopy⟩
    else some ctx
  else some ctx

/-- What `esp_http_client_perform` does: its error code, the status, and
the data of its data events. -/
structure Performed where
  err : Int
  status : Int
  events : List (List UInt8)

/-- `do_request`, given whether `calloc` succeeds: the error code and the
response buffer. -/
def doRequest (calloc : Bool) (p : Performed) :
    Option (Int × Option (List UInt8)) :=
  if calloc then
    (p.events.foldlM RespCtx.onData RespCtx.init).map fun ctx =>
      (if p.err ≠ espOk then p.err
        else if p.status < 200 ∨ 300 ≤ p.status then espFail else espOk,
        some ctx.buf)
  else some (espErrNoMem, none)

/-- `firebase_get`, given whether the URL buffer and the response buffer
can be had. -/
def firebaseGet (parse : Parser) (wanted url calloc : Bool) (p : Performed) :
    Option Return :=
  if url then
    (doRequest calloc p).map fun (err, body) =>
      if wanted then
        match body with
        | some buf =>
            if err = espOk then parseText parse (Block.textOf 0 buf)
            else ⟨err, .null⟩
        | none => ⟨err, .null⟩
      else ⟨err, .untouched⟩
  else some ⟨espErrNoMem, .untouched⟩

/-- `firebase_get_intercom`. -/
def firebaseGetIntercom (parse : Parser) (wanted url : Bool) (x : Exchange) :
    Option Return :=
  if url then streamingGet parse wanted x else some ⟨espErrNoMem, .untouched⟩

/-- `firebase_get_camera_poll`. -/
def firebaseGetCameraPoll (parse : Parser) (wanted url : Bool) (x : Exchange) :
    Option Return :=
  if url then streamingGet parse wanted x else some ⟨espErrNoMem, .untouched⟩

-- ========================================================= the invariant

/-- The usable bytes of the response buffer. -/
def usable : Nat := bodyBufSize - 1

/-- The buffer holds the data so far, as far as it goes, and zeros. -/
structure Filled (data : List UInt8) (ctx : RespCtx) : Prop where
  buf : ctx.buf = data.take usable
    ++ List.replicate (bodyBufSize - (data.take usable).length) 0
  len : ctx.len = (data.take usable).length

theorem filled_init : Filled [] RespCtx.init := ⟨rfl, rfl⟩

variable {data evtData : List UInt8} {ctx : RespCtx}

theorem length_take_usable (data : List UInt8) :
    (data.take usable).length < bodyBufSize := by
  rw [List.length_take]
  exact Nat.lt_of_le_of_lt (Nat.min_le_left _ _) (by decide)

/-- What an event adds to the usable bytes. -/
theorem take_usable_append (data evtData : List UInt8) :
    (data ++ evtData).take usable
      = data.take usable
        ++ evtData.take (usable - (data.take usable).length) := by
  have hroom : usable - data.length = usable - (data.take usable).length := by
    rw [List.length_take]
    omega
  rw [List.take_append, hroom]

/-- A data event is copied as far as there is room. -/
theorem Filled.onData (h : Filled data ctx) (evtData : List UInt8) :
    ∃ ctx', ctx.onData evtData = some ctx' ∧ Filled (data ++ evtData) ctx' := by
  have hlt := length_take_usable data
  have husable : usable + 1 = bodyBufSize := rfl
  have hcap : ctx.buf.length = bodyBufSize := by
    rw [h.buf, List.length_append, List.length_replicate]
    omega
  have hremaining : ctx.buf.length - ctx.len - 1
      = usable - (data.take usable).length := by
    rw [hcap, h.len]
    omega
  have hmore := take_usable_append data evtData
  obtain ⟨room, hroom⟩ : ∃ room, room = usable - (data.take usable).length :=
    ⟨_, rfl⟩
  rw [← hroom] at hremaining hmore
  -- to_copy is the length of what is copied
  have hcopy : (if evtData.length < room then evtData.length else room)
      = (evtData.take room).length := by
    rw [List.length_take]
    split <;> omega
  unfold RespCtx.onData
  dsimp only
  rw [hremaining, hcopy]
  by_cases hnone : (evtData.take room).length = 0
  · have hsame : Filled (data ++ evtData) ctx := by
      rw [List.eq_nil_of_length_eq_zero hnone, List.append_nil] at hmore
      exact ⟨hmore ▸ h.buf, hmore ▸ h.len⟩
    have hzero : ¬ (evtData.take room).length > 0 := Nat.not_lt.mpr
      (Nat.le_of_eq hnone)
    rw [if_neg hzero, ite_self]
    exact ⟨ctx, rfl, hsame⟩
  · have hpos : (evtData.take room).length > 0 := Nat.pos_of_ne_zero hnone
    have hsome : evtData.length > 0 :=
      Nat.lt_of_lt_of_le hpos (List.length_take_le' _ _)
    have htake : evtData.take (evtData.take room).length = evtData.take room := by
      rw [List.length_take]
      exact (List.take_eq_take_min).symm
    have hle : (evtData.take room).length ≤ room := List.length_take_le _ _
    -- the copy, and the NUL over a zero
    obtain ⟨buf, hcopied, hclosed⟩ := Block.write_closed (data.take usable) (0 : UInt8)
      (show (evtData.take room).length < bodyBufSize - (data.take usable).length by
        omega)
    rw [if_pos hsome, if_pos hpos, htake, h.buf, h.len, hcopied, Option.bind_some,
      hclosed]
    refine ⟨_, rfl, ⟨?_, ?_⟩⟩
    · rw [hmore, List.length_append, Nat.sub_add_eq]
    · rw [hmore, List.length_append]

/-- The response after any data events. -/
theorem Filled.foldlM (h : Filled data ctx) (events : List (List UInt8)) :
    ∃ ctx', events.foldlM RespCtx.onData ctx = some ctx'
      ∧ Filled (data ++ events.flatten) ctx' := by
  induction events generalizing data ctx with
  | nil => exact ⟨ctx, rfl, by simpa using h⟩
  | cons evtData events ih =>
      obtain ⟨ctx₁, hctx₁, h₁⟩ := h.onData evtData
      obtain ⟨ctx', hctx', h'⟩ := ih h₁
      refine ⟨ctx', ?_, ?_⟩
      · rw [List.foldlM_cons, hctx₁]
        exact hctx'
      · rw [List.flatten_cons, ← List.append_assoc]
        exact h'

/-- The text in the response buffer is that of the usable bytes. -/
theorem Filled.text (h : Filled data ctx) :
    Block.textOf 0 ctx.buf = textOf (data.take usable) := by
  have hlt := length_take_usable data
  obtain ⟨n, hn⟩ := Nat.exists_eq_succ_of_ne_zero
    (Nat.sub_ne_zero_of_lt hlt)
  rw [h.buf, hn, List.replicate_succ]
  exact Block.textOf_append_cons 0

-- ========================================================== the two reads

/-- A 2xx answer is handed over by `firebase_get` as the text of its
usable bytes. -/
theorem firebaseGet_ok (parse : Parser) (wanted : Bool) {status : Int}
    (hstatus : 200 ≤ status ∧ status < 300) (events : List (List UInt8)) :
    firebaseGet parse wanted true true ⟨espOk, status, events⟩
      = some (accept parse wanted (events.flatten.take usable)) := by
  obtain ⟨ctx, hctx, hfilled⟩ := filled_init.foldlM events
  rw [List.nil_append] at hfilled
  have hgood : ¬ (status < 200 ∨ 300 ≤ status) := by omega
  unfold firebaseGet doRequest
  simp only [hctx, if_true, hgood, if_false, Option.map_some]
  unfold accept
  rw [hfilled.text]
  cases wanted <;> simp

/-- A body read by `streaming_get` to its end, within the initial
capacity. -/
theorem get_eof (psram : Bool) (fresh : Nat → UInt8) (parse : Parser)
    (wanted : Bool) {xs : Chunks} (r : Realloc)
    (hsmall : xs.body.length < startCap psram) :
    (Buffer.start psram fresh).get parse wanted (xs.turns ++ [⟨.eof, r⟩])
      = some (if xs.body = [] then ⟨espOk, if wanted then .null else .untouched⟩
        else accept parse wanted xs.body) := by
  have hcap := startCap_ok psram
  rcases readLoop_chunks hcap (loaded_start psram fresh) xs with
    ⟨-, b', hb', hl⟩ | ⟨hno, -⟩
  · unfold Buffer.get
    rw [readLoop_concat, hb']
    show some (b'.finish parse wanted espOk) = _
    by_cases hne : xs.body = []
    · have hzero : ¬ b'.totalRead > 0 := by
        rw [hl.total, hne]
        exact Nat.lt_irrefl 0
      rw [if_pos hne]
      unfold Buffer.finish
      cases wanted <;> simp [hzero]
    · rw [if_neg hne, hl.finish parse wanted hne]
  · exact absurd (Chunks.fits_of_lt hcap hsmall) hno

theorem allocate_start {x : Exchange} (h : x.allocate ≠ none) :
    ∃ psram fresh, x.allocate = some (.start psram fresh) := by
  unfold Exchange.allocate at h ⊢
  cases hp : x.psram with
  | some fresh => exact ⟨true, fresh, rfl⟩
  | none =>
      rw [hp] at h
      cases hi : x.internal with
      | some fresh => exact ⟨false, fresh, rfl⟩
      | none =>
          rw [hi] at h
          exact absurd rfl h

/-- A 2xx answer of at most 8191 bytes read by `streaming_get` to its
end. -/
theorem streamingGet_ok (parse : Parser) (wanted : Bool) {x : Exchange}
    {xs : Chunks} {r : Realloc}
    (hx : x.openErr = espOk ∧ 200 ≤ x.status ∧ x.status < 300)
    (halloc : x.allocate ≠ none) (hturns : x.turns = xs.turns ++ [⟨.eof, r⟩])
    (hlen : xs.body.length ≤ usable) :
    streamingGet parse wanted x
      = some (if xs.body = [] then ⟨espOk, if wanted then .null else .untouched⟩
        else accept parse wanted xs.body) := by
  obtain ⟨hopen, hstatus⟩ := hx
  obtain ⟨psram, fresh, hstart⟩ := allocate_start halloc
  have hsmall : xs.body.length < startCap psram := by
    refine Nat.lt_of_le_of_lt hlen ?_
    cases psram <;> decide
  have hgood : ¬ (x.status < 200 ∨ 300 ≤ x.status) := by omega
  unfold streamingGet
  rw [if_neg (not_not_intro hopen), if_neg hgood, hstart, hturns]
  exact get_eof psram fresh parse wanted r hsmall

/-- An empty text is looked at by the parser, and gives an error or a
value. -/
theorem accept_nil_ne (parse : Parser) :
    accept parse true [] ≠ ⟨espOk, .null⟩ := by
  intro h
  have htext : textOf [] ≠ cstr "null" := by decide
  unfold accept parseText at h
  rw [if_pos rfl, if_neg htext] at h
  cases hp : parse (textOf []) with
  | none =>
      simp only [hp, Return.mk.injEq, and_true] at h
      exact absurd h (by decide)
  | some v => simp [hp] at h

/-- The same body of at most 8191 bytes, in any chunks and without a
transport error: the two ways of getting it return the same exactly when
it is not empty, or no value is asked for. -/
theorem gets_agree_iff (parse : Parser) (wanted : Bool) {p : Performed}
    {x : Exchange} {xs : Chunks} {r : Realloc}
    (hp : p.err = espOk ∧ 200 ≤ p.status ∧ p.status < 300)
    (hx : x.openErr = espOk ∧ 200 ≤ x.status ∧ x.status < 300)
    (halloc : x.allocate ≠ none) (hturns : x.turns = xs.turns ++ [⟨.eof, r⟩])
    (hbody : p.events.flatten = xs.body) (hlen : xs.body.length ≤ 8191) :
    ∃ a b, firebaseGet parse wanted true true p = some a
      ∧ firebaseGetIntercom parse wanted true x = some b
      ∧ firebaseGetCameraPoll parse wanted true x = some b
      ∧ (a = b ↔ xs.body ≠ [] ∨ wanted = false) := by
  obtain ⟨err, status, events⟩ := p
  obtain ⟨rfl, hstatus⟩ := hp
  have hget := firebaseGet_ok parse wanted hstatus events
  have hshort : xs.body.take usable = xs.body := List.take_of_length_le hlen
  rw [hbody, hshort] at hget
  have hstream := streamingGet_ok parse wanted hx halloc hturns hlen
  refine ⟨_, _, hget, hstream, hstream, ?_⟩
  by_cases hne : xs.body = []
  · rw [hne, if_pos rfl]
    cases wanted with
    | false => exact ⟨fun _ => .inr rfl, fun _ => rfl⟩
    | true =>
        refine ⟨fun h => absurd h (accept_nil_ne parse), fun h => ?_⟩
        rcases h with h | h
        · exact absurd rfl h
        · cases h
  · rw [if_neg hne]
    exact ⟨fun _ => .inl hne, fun _ => rfl⟩

/-- The body `12`, in two events and in one chunk. -/
theorem gets_agree_number :
    ∃ a, firebaseGet parseDigits true true true ⟨espOk, 200, [[49], [50]]⟩ = some a
      ∧ firebaseGetIntercom parseDigits true true
        ⟨espOk, 200, some fun _ => 7, none,
          (oneChunk [49, 50] (by decide) (by decide)).turns ++ [⟨.eof, none⟩]⟩
          = some a := by
  have hok : espOk = espOk ∧ (200 : Int) ≤ 200 ∧ (200 : Int) < 300 := by decide
  obtain ⟨a, b, ha, hb, -, hiff⟩ := gets_agree_iff parseDigits true
    (p := ⟨espOk, 200, [[49], [50]]⟩)
    (x := ⟨espOk, 200, some fun _ => 7, none,
      (oneChunk [49, 50] (by decide) (by decide)).turns ++ [⟨.eof, none⟩]⟩)
    hok hok (Option.some_ne_none _) rfl rfl (by decide)
  obtain rfl := hiff.mpr (.inl (by decide))
  exact ⟨a, ha, hb⟩

/-- An exchange that reads nothing. -/
def emptyExchange : Exchange := ⟨espOk, 200, some fun _ => 7, none, [⟨.eof, none⟩]⟩

/-- An empty body is an error for the one and a null node for the
other. -/
theorem gets_disagree_empty :
    firebaseGet parseDigits true true true ⟨espOk, 200, []⟩
        = some ⟨espFail, .null⟩
      ∧ firebaseGetIntercom parseDigits true true emptyExchange
        = some ⟨espOk, .null⟩ := by
  have hok : espOk = espOk ∧ (200 : Int) ≤ 200 ∧ (200 : Int) < 300 := by decide
  have halloc : emptyExchange.allocate ≠ none := Option.some_ne_none _
  have hturns : emptyExchange.turns = Chunks.turns [] ++ [⟨.eof, none⟩] := rfl
  constructor
  · rw [firebaseGet_ok parseDigits true hok.2 []]
    rfl
  · exact streamingGet_ok parseDigits true hok halloc hturns (Nat.zero_le _)

end SitNChow.Firebase
