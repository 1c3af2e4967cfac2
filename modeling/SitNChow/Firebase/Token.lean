/-
The auth token (firebase_client.c): `fetch_token`, which stores it, and
`build_url`, which puts it into every request's URL, with
`s_token_mutex` between them.

# Grain

Inside the mutex a task reads or writes one byte of `s_auth_token` at a
time. What `fetch_token` does before it takes the mutex is one step, and
the token counts as the latest (`TokenStore.latest`) from when the mutex
is given back, since nothing behind that touches what tasks share.

# What the buffers do

`s_auth_token` holds the first 2047 bytes of the latest token whenever
the mutex is free, and a URL is the first 4091 bytes of what is printed
(`Built.Printed`). So the tokens are never mixed, and a URL is the whole
one exactly when both fit (`url_whole_iff`).
-/
import SitNChow.Firebase.Response
import SitNChow.Kit.Mutex
import Mathlib.Data.List.GetD

namespace SitNChow.Firebase

open Kit

/-- `TOKEN_MAX_LEN`. -/
def tokenMaxLen : Nat := 2048

/-- `URL_BUF_SIZE`. -/
def urlBufSize : Nat := 4092

-- ============================================================ fetch_token

/-- What `fetch_token` meets: whether `malloc`, `calloc` and
`esp_http_client_init` give something, and what the request does. -/
structure Fetch where
  malloc : Bool
  calloc : Bool
  client : Bool
  performed : Performed

/-- `fetch_token` before it takes the mutex: its error code, or the token
it goes on to store; nothing when it writes out of bounds. -/
def fetchToken (parse : Parser) (x : Fetch) : Option (Except Int CString) :=
  if x.malloc = false then some (.error espErrNoMem)
  else if x.calloc = false then some (.error espErrNoMem)
  else if x.client = false then some (.error espFail)
  else
    (x.performed.events.foldlM RespCtx.onData RespCtx.init).map fun (ctx : RespCtx) =>
      if x.performed.err ≠ espOk ∨ ctx.buf.headD 0 = 0 then .error espFail
      else
        match parse (Block.textOf 0 ctx.buf) with
        | none => .error espFail
        | some json =>
            match json.getObjectItem (cstr "token") with
            | some (.string valuestring) => .ok (textOf valuestring)
            | _ => .error espFail

/-- A token is a C string. -/
theorem fetchToken_ok {parse : Parser} {x : Fetch} {token : CString}
    (h : fetchToken parse x = some (.ok token)) : ∀ b ∈ token, b ≠ 0 := by
  unfold fetchToken at h
  split at h
  · cases h
  · split at h
    · cases h
    · split at h
      · cases h
      · obtain ⟨ctx, -, hctx⟩ := Option.map_eq_some_iff.mp h
        split at hctx
        · cases hctx
        · split at hctx
          · cases hctx
          · split at hctx
            · cases hctx
              exact fun _ => Block.ne_of_mem_textOf
            · cases hctx

-- ======================================================= inside the mutex

/-- A URL that has been built: of which path, what is in the buffer, and
the latest token then. -/
structure Built where
  path : CString
  url : CString
  token : CString

/-- `s_auth_token`, and the history: the token of the latest
`fetch_token` that returned ESP_OK (empty before the first) and the URLs
so far. -/
structure TokenStore where
  authToken : List UInt8
  latest : CString
  built : List Built

/-- The buffer starts zeroed. -/
def TokenStore.init : TokenStore := ⟨List.replicate tokenMaxLen 0, [], []⟩

/-- What `fetch_token` writes to a byte of `s_auth_token`: `strncpy` of
2047 bytes, padded with NULs, and a NUL. -/
def tokenByte (token : CString) (pos : Nat) : UInt8 :=
  if pos < tokenMaxLen - 1 then token.getD pos 0 else 0

/-- `s_auth_token` when a token has been stored. -/
def padded (token : CString) : List UInt8 :=
  (List.range tokenMaxLen).map (tokenByte token)

/-- The URL of `build_url`'s format, where `db` is
`CONFIG_FIREBASE_DATABASE_URL`. -/
def urlOf (db path token : CString) : CString :=
  cstr "https://" ++ db ++ cstr "/" ++ path ++ cstr ".json?auth=" ++ token

/-- `snprintf` puts one more byte, as long as there is room for a NUL
behind it. -/
def put (buf : CString) (b : UInt8) : CString :=
  if buf.length < urlBufSize - 1 then buf ++ [b] else buf

/-- What a task does with the mutex, and how far it is in
`s_auth_token`. -/
inductive Section where
  | store (token : CString) (pos : Nat)
  | print (path : CString) (pos : Nat) (buf : CString)

/-- What a task comes for. -/
inductive Request where
  | fetchToken (x : Fetch)
  | buildUrl (path : CString)

/-- `fetch_token` comes to the mutex only with a token; `build_url` has
printed the URL up to the token then. -/
def enter (db : CString) (parse : Parser) : Request → Option Section
  | .fetchToken x =>
      match fetchToken parse x with
      | some (.ok token) => some (.store token 0)
      | _ => none
  | .buildUrl path => some (.print path 0 ((urlOf db path []).take (urlBufSize - 1)))

/-- One step inside the mutex. -/
def next : Section → TokenStore → Option Section × TokenStore
  | .store token pos, d =>
      if pos < tokenMaxLen then
        (some (.store token (pos + 1)),
          { d with authToken := d.authToken.set pos (tokenByte token pos) })
      else (none, { d with latest := token })
  | .print path pos buf, d =>
      let b := d.authToken.getD pos 0
      if b = 0 then (none, { d with built := ⟨path, buf, d.latest⟩ :: d.built })
      else (some (.print path (pos + 1) (put buf b)), d)

def tokenSections (db : CString) (parse : Parser) :
    Mutex.Sections Request TokenStore Section :=
  ⟨enter db parse, next⟩

/-- Any tasks `τ` that fetch tokens and build URLs. -/
def tokenMachine (τ : Type) [DecidableEq τ] (db : CString) (parse : Parser) :
    Machine (Mutex.Guarded τ TokenStore Section) (Mutex.Act τ Request) :=
  (tokenSections db parse).machine TokenStore.init

-- ========================================================== the invariant

/-- The URL as it comes out of the two buffers. -/
def Built.Printed (db : CString) (b : Built) : Prop :=
  b.url = (urlOf db b.path (b.token.take (tokenMaxLen - 1))).take (urlBufSize - 1)

/-- While the mutex is free: the latest token is stored, as far as it
goes. -/
structure TokenStore.Ok (db : CString) (d : TokenStore) : Prop where
  text : ∀ b ∈ d.latest, b ≠ 0
  stored : d.authToken = padded d.latest
  printed : ∀ b ∈ d.built, b.Printed db

/-- While a task has it: the token is being overwritten from its front,
or the stored one has been printed so far. -/
def Section.Ok (db : CString) : Section → TokenStore → Prop
  | .store token pos, d =>
      (∀ b ∈ token, b ≠ 0) ∧ pos ≤ tokenMaxLen
        ∧ d.authToken = Block.front (padded token) (padded d.latest) pos
        ∧ ∀ b ∈ d.built, b.Printed db
  | .print path pos buf, d =>
      d.Ok db ∧ pos ≤ (d.latest.take (tokenMaxLen - 1)).length
        ∧ buf = (urlOf db path (d.latest.take pos)).take (urlBufSize - 1)

variable {db path token buf : CString} {parse : Parser} {pos : Nat}

@[simp] theorem length_padded (token : CString) :
    (padded token).length = tokenMaxLen := by
  simp [padded]

theorem padded_getElem (h : pos < (padded token).length) :
    (padded token)[pos] = tokenByte token pos := by
  simp [padded]

theorem padded_getD (token : CString) (pos : Nat) :
    (padded token).getD pos 0 = tokenByte token pos := by
  by_cases h : pos < (padded token).length
  · rw [List.getD_eq_getElem _ _ h, padded_getElem]
  · rw [List.getD_eq_default _ _ (Nat.le_of_not_lt h)]
    rw [length_padded] at h
    exact (if_neg (by omega)).symm

/-- Reading on, one comes to the NUL behind what is stored, and to none
before. -/
theorem tokenByte_eq_zero_iff (htext : ∀ b ∈ token, b ≠ 0) :
    tokenByte token pos = 0 ↔ (token.take (tokenMaxLen - 1)).length ≤ pos := by
  unfold tokenByte
  rw [List.length_take]
  by_cases hmax : pos < tokenMaxLen - 1
  · rw [if_pos hmax]
    by_cases hpos : pos < token.length
    · rw [List.getD_eq_getElem _ _ hpos]
      have hne := htext _ (List.getElem_mem hpos)
      constructor
      · intro h
        exact absurd h hne
      · omega
    · rw [List.getD_eq_default _ _ (Nat.le_of_not_lt hpos)]
      constructor
      · omega
      · intro _
        rfl
  · rw [if_neg hmax]
    constructor
    · omega
    · intro _
      rfl

theorem put_take (xs : CString) (b : UInt8) :
    put (xs.take (urlBufSize - 1)) b = (xs ++ [b]).take (urlBufSize - 1) := by
  unfold put
  rw [List.length_take, List.take_append]
  split
  · next h =>
    have hlen : xs.length < urlBufSize - 1 := by omega
    have hone : urlBufSize - 1 - xs.length = (urlBufSize - 1 - xs.length - 1) + 1 := by
      omega
    rw [hone, List.take_succ_cons, List.take_nil]
  · next h =>
    have hzero : urlBufSize - 1 - xs.length = 0 := by omega
    rw [hzero, List.take_zero, List.append_nil]

theorem urlOf_append (db path xs ys : CString) :
    urlOf db path (xs ++ ys) = urlOf db path xs ++ ys := by
  unfold urlOf
  exact (List.append_assoc _ _ _).symm

/-- Nothing that happens inside the mutex changes what has been built
before. -/
theorem Section.Ok.printed {c : Section} {d : TokenStore} (h : c.Ok db d) :
    ∀ b ∈ d.built, b.Printed db := by
  cases c with
  | store token pos => exact h.2.2.2
  | print path pos buf => exact h.1.printed

/-- `store` keeps its invariant. -/
theorem store_step {d : TokenStore} (h : (Section.store token pos).Ok db d)
    (hpos : pos < tokenMaxLen) :
    (Section.store token (pos + 1)).Ok db
      { d with authToken := d.authToken.set pos (tokenByte token pos) } := by
  obtain ⟨htext, -, hfront, hprinted⟩ := h
  have hin : pos < (padded token).length := by
    rw [length_padded]
    exact hpos
  refine ⟨htext, hpos, ?_, hprinted⟩
  show d.authToken.set pos _ = _
  rw [hfront, ← padded_getElem hin]
  exact Block.set_front hin (by rw [length_padded, length_padded])

/-- `print` keeps its invariant. -/
theorem print_step {d : TokenStore} (h : (Section.print path pos buf).Ok db d)
    (hb : d.authToken.getD pos 0 ≠ 0) :
    (Section.print path (pos + 1) (put buf (d.authToken.getD pos 0))).Ok db d := by
  obtain ⟨hok, -, rfl⟩ := h
  rw [hok.stored, padded_getD] at hb ⊢
  have hpos : pos < (d.latest.take (tokenMaxLen - 1)).length := by
    by_contra hlong
    exact hb ((tokenByte_eq_zero_iff hok.text).mpr (Nat.le_of_not_lt hlong))
  have hlen : pos < d.latest.length ∧ pos < tokenMaxLen - 1 := by
    rw [List.length_take] at hpos
    omega
  have hbyte : tokenByte d.latest pos = d.latest[pos] := by
    unfold tokenByte
    rw [if_pos hlen.2, List.getD_eq_getElem _ _ hlen.1]
  refine ⟨hok, hpos, ?_⟩
  rw [put_take, ← urlOf_append, hbyte, List.take_append_getElem]

/-- When `store` has come to the end, its token is stored. -/
theorem store_end {d : TokenStore} (h : (Section.store token pos).Ok db d)
    (hpos : ¬ pos < tokenMaxLen) : ({ d with latest := token } : TokenStore).Ok db := by
  obtain ⟨htext, hle, hfront, hprinted⟩ := h
  have hend : pos = (padded token).length := by
    rw [length_padded]
    omega
  refine ⟨htext, ?_, hprinted⟩
  show d.authToken = _
  rw [hfront, hend]
  exact Block.front_length (by rw [length_padded, length_padded])

/-- When `print` has come to a NUL, all of what is stored has been
printed. -/
theorem print_end {d : TokenStore} (h : (Section.print path pos buf).Ok db d)
    (hb : d.authToken.getD pos 0 = 0) :
    ({ d with built := ⟨path, buf, d.latest⟩ :: d.built } : TokenStore).Ok db := by
  obtain ⟨hok, hle, rfl⟩ := h
  rw [hok.stored, padded_getD, tokenByte_eq_zero_iff hok.text] at hb
  have hend := Nat.le_antisymm hle hb
  have htake : d.latest.take pos = d.latest.take (tokenMaxLen - 1) := by
    rw [hend, List.length_take]
    exact List.take_eq_take_min.symm
  refine ⟨hok.text, hok.stored, ?_⟩
  rw [List.forall_mem_cons]
  refine ⟨?_, hok.printed⟩
  show _ = (urlOf db path _).take _
  rw [htake]

theorem tokenRule (db : CString) (parse : Parser) :
    Mutex.Rule (tokenSections db parse) (TokenStore.Ok db) (Section.Ok db) where
  enter := by
    intro r c d hc hok
    cases r with
    | fetchToken x =>
        simp only [tokenSections, enter] at hc
        split at hc
        · next token hx =>
          cases hc
          refine ⟨fetchToken_ok hx, Nat.zero_le _, ?_, hok.printed⟩
          rw [Block.front_zero]
          exact hok.stored
        · cases hc
    | buildUrl path =>
        cases hc
        exact ⟨hok, Nat.zero_le _, rfl⟩
  stay := by
    intro c d c' d' hin hn
    cases c with
    | store token pos =>
        simp only [tokenSections, next] at hn
        split at hn
        · next hpos =>
          cases hn
          exact store_step hin hpos
        · cases hn
    | print path pos buf =>
        simp only [tokenSections, next] at hn
        split at hn
        · cases hn
        · next hb =>
          cases hn
          exact print_step hin hb
  leave := by
    intro c d d' hin hn
    cases c with
    | store token pos =>
        simp only [tokenSections, next] at hn
        split at hn
        · cases hn
        · next hpos =>
          cases hn
          exact store_end hin hpos
    | print path pos buf =>
        simp only [tokenSections, next] at hn
        split at hn
        · next hb =>
          cases hn
          exact print_end hin hb
        · cases hn

theorem padded_nil : padded [] = List.replicate tokenMaxLen 0 := by
  have hzero : tokenByte [] = fun _ => 0 := by
    funext pos
    unfold tokenByte
    split <;> rfl
  unfold padded
  rw [hzero, List.map_const', List.length_range]

theorem tokenStore_init_ok (db : CString) : TokenStore.init.Ok db where
  text := by
    intro b hb
    cases hb
  stored := padded_nil.symm
  printed := by
    intro b hb
    cases hb

-- =========================================================== every request

theorem length_urlOf (db path token : CString) :
    (urlOf db path token).length = (urlOf db path []).length + token.length := by
  have := congrArg List.length (urlOf_append db path [] token)
  rwa [List.nil_append, List.length_append] at this

/-- What comes out of the two buffers is the whole URL exactly when both
are large enough. -/
theorem Built.Printed.whole_iff {b : Built} (h : b.Printed db) :
    b.url = urlOf db b.path b.token
      ↔ b.token.length ≤ tokenMaxLen - 1
        ∧ (urlOf db b.path b.token).length ≤ urlBufSize - 1 := by
  rw [show b.url = _ from h]
  constructor
  · intro hwhole
    have hcut := congrArg List.length hwhole
    rw [List.length_take, length_urlOf db b.path b.token,
      length_urlOf db b.path (b.token.take _), List.length_take] at hcut
    rw [length_urlOf]
    omega
  · rintro ⟨htoken, hurl⟩
    rw [List.take_of_length_le htoken, List.take_of_length_le hurl]

/-- What is stored: the token up to the last byte but one, and NULs. -/
theorem padded_eq (token : CString) :
    padded token = token.take (tokenMaxLen - 1)
      ++ List.replicate (tokenMaxLen - (token.take (tokenMaxLen - 1)).length) 0 := by
  have hle : (token.take (tokenMaxLen - 1)).length ≤ tokenMaxLen :=
    (List.length_take_le _ _).trans (Nat.sub_le _ _)
  refine List.ext_getElem ?_ ?_
  · rw [length_padded, List.length_append, List.length_replicate]
    omega
  · intro pos hpos hpos'
    rw [padded_getElem]
    unfold tokenByte
    by_cases hin : pos < (token.take (tokenMaxLen - 1)).length
    · rw [List.getElem_append_left hin, List.getElem_take]
      rw [List.length_take] at hin
      rw [if_pos (by omega), List.getD_eq_getElem]
    · rw [List.getElem_append_right (Nat.le_of_not_lt hin), List.getElem_replicate]
      rw [List.length_take] at hin
      split
      · exact List.getD_eq_default _ _ (by omega)
      · rfl

/-- The same, read as a C string. -/
theorem textOf_padded (htext : ∀ b ∈ token, b ≠ 0) :
    textOf (padded token) = token.take (tokenMaxLen - 1) := by
  have hlt : (token.take (tokenMaxLen - 1)).length < tokenMaxLen :=
    Nat.lt_of_le_of_lt (List.length_take_le _ _) (Nat.lt_succ_self _)
  obtain ⟨n, hn⟩ := Nat.exists_eq_succ_of_ne_zero (Nat.sub_ne_zero_of_lt hlt)
  rw [padded_eq, hn, List.replicate_succ]
  refine (Block.textOf_append_cons 0).trans (textOf_eq_self fun b hb => ?_)
  exact htext b (List.mem_of_mem_take hb)

/-- In every state reached, every URL is as it comes out of the
buffers. -/
theorem built_printed {τ : Type} [DecidableEq τ]
    {s : Mutex.Guarded τ TokenStore Section}
    (hr : (tokenMachine τ db parse).Reachable s) :
    ∀ b ∈ s.data.built, b.Printed db :=
  ((tokenRule db parse).reachable (tokenStore_init_ok db) hr).data
    (P := fun d => ∀ b ∈ d.built, b.Printed db)
    (fun _ hd => hd.printed) fun _ _ hc => hc.printed

/-- In any interleaving of any tasks that fetch tokens and build URLs:
every URL is the one with the latest token of its time exactly when that
token has at most 2047 bytes and the URL at most 4091, and otherwise cut
off there; while the mutex is free the latest token is stored, up to 2047
bytes; and a `fetch_token` that fails leaves everything as it was. -/
theorem url_whole_iff {τ : Type} [DecidableEq τ] (db : CString) (parse : Parser)
    {s : Mutex.Guarded τ TokenStore Section}
    (hr : (tokenMachine τ db parse).Reachable s) :
    (∀ b ∈ s.data.built,
        (b.url = urlOf db b.path b.token
          ↔ b.token.length ≤ 2047 ∧ (urlOf db b.path b.token).length ≤ 4091)
        ∧ b.url = (urlOf db b.path (b.token.take 2047)).take 4091)
      ∧ (s.taken = false → textOf s.data.authToken = s.data.latest.take 2047)
      ∧ ∀ i x s' err, fetchToken parse x = some (.error err) →
        (tokenMachine τ db parse).apply (.call i (.fetchToken x)) s = some s' →
        s' = s := by
  have hinv := (tokenRule db parse).reachable (tokenStore_init_ok db) hr
  refine ⟨fun b hb => ?_, fun hfree => ?_, fun i x s' err hx happ => ?_⟩
  · have hprinted := built_printed hr b hb
    exact ⟨hprinted.whole_iff, hprinted⟩
  · have hok := hinv.free hfree
    rw [hok.stored]
    exact textOf_padded hok.text
  · have hnone : (tokenSections db parse).enter (.fetchToken x) = none := by
      simp only [tokenSections, enter, hx]
    exact Mutex.eq_of_enter_none hnone happ

-- ============================================================= two requests

/-- `fetch_token` stores its token, when it is left alone. -/
theorem store_finishes (db : CString) (parse : Parser) (token : CString)
    (left : Nat) : ∀ pos d, left + pos = tokenMaxLen →
      ∃ d', Mutex.Finishes (tokenSections db parse) (.store token pos) d d'
        ∧ d'.latest = token := by
  induction left with
  | zero =>
      intro pos d hpos
      refine ⟨{ d with latest := token }, .leave ?_, rfl⟩
      have hend : ¬ pos < tokenMaxLen := by omega
      simp only [tokenSections, next, if_neg hend]
  | succ left ih =>
      intro pos d hpos
      have hin : pos < tokenMaxLen := by omega
      obtain ⟨d', hd', hlatest⟩ := ih (pos + 1)
        { d with authToken := d.authToken.set pos (tokenByte token pos) } (by omega)
      refine ⟨d', .stay ?_ hd', hlatest⟩
      simp only [tokenSections, next, if_pos hin]

/-- `build_url` comes to a NUL, at the latest behind the buffer. -/
theorem print_finishes (db : CString) (parse : Parser) (path : CString)
    (d : TokenStore) (left : Nat) : ∀ pos buf, d.authToken.length ≤ left + pos →
      ∃ d' b, Mutex.Finishes (tokenSections db parse) (.print path pos buf) d d'
        ∧ b ∈ d'.built ∧ b.path = path ∧ b.token = d.latest := by
  have hnul : ∀ pos buf, d.authToken.getD pos 0 = 0 →
      Mutex.Finishes (tokenSections db parse) (.print path pos buf) d
        { d with built := ⟨path, buf, d.latest⟩ :: d.built } := by
    intro pos buf hb
    refine .leave ?_
    simp only [tokenSections, next, if_pos hb]
  induction left with
  | zero =>
      intro pos buf hlen
      refine ⟨_, _, hnul pos buf ?_, List.mem_cons_self, rfl, rfl⟩
      exact List.getD_eq_default _ _ (by omega)
  | succ left ih =>
      intro pos buf hlen
      by_cases hb : d.authToken.getD pos 0 = 0
      · exact ⟨_, _, hnul pos buf hb, List.mem_cons_self, rfl, rfl⟩
      · obtain ⟨d', b, hd', hmem⟩ := ih (pos + 1) (put buf (d.authToken.getD pos 0))
          (by omega)
        refine ⟨d', b, .stay ?_ hd', hmem⟩
        simp only [tokenSections, next, if_neg hb]

/-- After a token has been fetched, a URL can be built with it. -/
theorem exists_built {τ : Type} [DecidableEq τ] (i : τ) (db path : CString)
    {x : Fetch} (hx : fetchToken parse x = some (.ok token)) :
    ∃ s, (tokenMachine τ db parse).Reachable s
      ∧ ∃ b ∈ s.data.built, b.path = path ∧ b.token = token := by
  obtain ⟨d, hd, hlatest⟩ := store_finishes db parse token tokenMaxLen 0
    TokenStore.init rfl
  have hfetch : (tokenSections db parse).enter (.fetchToken x)
      = some (.store token 0) := by
    simp only [tokenSections, enter, hx]
  have hr : (tokenMachine τ db parse).Reachable _ :=
    Mutex.reachable_section (i := i) .init hfetch hd rfl rfl
  obtain ⟨d', b, hd', hmem, hpath, htoken⟩ := print_finishes db parse path d
    d.authToken.length 0 ((urlOf db path []).take (urlBufSize - 1)) (Nat.le_refl _)
  refine ⟨_, Mutex.reachable_section (i := i) (r := .buildUrl path) hr rfl hd'
    ?_ rfl, b, hmem, hpath, htoken.trans hlatest⟩
  exact Mutex.move_place_self

/-- A response with a token in it. -/
def tokenText (token : CString) : CString :=
  cstr "\x7b\"token\":\"" ++ token ++ cstr "\"\x7d"

def Letters (token : CString) : Prop := ∀ b ∈ token, 97 ≤ b ∧ b ≤ 122

instance (token : CString) : Decidable (Letters token) :=
  List.decidableBAll (fun b : UInt8 => 97 ≤ b ∧ b ≤ 122) token

/-- A parser of the responses whose token is made of letters. -/
def parseTokenText : Parser := fun text =>
  let token := (text.drop 10).take (text.length - 12)
  if text = tokenText token ∧ Letters token then
    some (.object [(cstr "token", .string token)])
  else none

/-- What a Cloud Run answer with a token comes with. -/
def answer (token : CString) : Fetch :=
  ⟨true, true, true, ⟨espOk, 200, [tokenText token]⟩⟩

theorem length_tokenText (token : CString) :
    (tokenText token).length = token.length + 12 := by
  have hopen : (cstr "\x7b\"token\":\"").length = 10 := rfl
  have hclose : (cstr "\"\x7d").length = 2 := rfl
  unfold tokenText
  rw [List.length_append, List.length_append, hopen, hclose]
  omega

theorem parseTokenText_tokenText (h : Letters token) :
    parseTokenText (tokenText token) = some (.object [(cstr "token", .string token)]) := by
  have hlen : (tokenText token).length - 12 = token.length := by
    rw [length_tokenText, Nat.add_sub_cancel]
  have htoken : ((tokenText token).drop 10).take token.length = token := by
    unfold tokenText
    rw [List.append_assoc]
    exact List.take_left
  unfold parseTokenText
  dsimp only
  rw [hlen, htoken, if_pos ⟨rfl, h⟩]

theorem tokenText_ne_zero (h : Letters token) : ∀ b ∈ tokenText token, b ≠ 0 := by
  have hopen : (0 : UInt8) ∉ cstr "\x7b\"token\":\"" := by decide
  have hclose : (0 : UInt8) ∉ cstr "\"\x7d" := by decide
  rintro b hb rfl
  rcases List.mem_append.mp hb with hb | hb
  · rcases List.mem_append.mp hb with hb | hb
    · exact hopen hb
    · exact absurd (h 0 hb).1 (by decide)
  · exact hclose hb

/-- A token of letters that leaves room for the rest of the response is
fetched as it is. -/
theorem fetchToken_answer (h : Letters token) (hlen : token.length + 12 ≤ usable) :
    fetchToken parseTokenText (answer token) = some (.ok token) := by
  obtain ⟨ctx, hctx, hfilled⟩ :=
    filled_init.foldlM (answer token).performed.events
  have hdata : ([] ++ (answer token).performed.events.flatten).take usable
      = tokenText token := by
    rw [List.nil_append, show (answer token).performed.events = [tokenText token]
      from rfl, List.flatten_singleton]
    refine List.take_of_length_le ?_
    rw [length_tokenText]
    exact hlen
  have htext : Block.textOf 0 ctx.buf = tokenText token := by
    rw [hfilled.text, hdata]
    exact textOf_eq_self (tokenText_ne_zero h)
  have hhead : ¬ ((answer token).performed.err ≠ espOk ∨ ctx.buf.headD 0 = 0) := by
    rw [hfilled.buf, hdata]
    rintro (herr | hzero)
    · exact herr rfl
    · cases hzero
  have hsame : textOf token = token :=
    textOf_eq_self fun b hb => tokenText_ne_zero h b
      (List.mem_append_left _ (List.mem_append_right _ hb))
  have hmember : (CJson.object [(cstr "token", .string token)]).getObjectItem
      (cstr "token") = some (.string token) := rfl
  have hmalloc : ¬ (answer token).malloc = false := Bool.noConfusion
  have hcalloc : ¬ (answer token).calloc = false := Bool.noConfusion
  have hclient : ¬ (answer token).client = false := Bool.noConfusion
  unfold fetchToken
  rw [if_neg hmalloc, if_neg hcalloc, if_neg hclient, hctx, Option.map_some,
    if_neg hhead, htext, parseTokenText_tokenText h]
  dsimp only
  rw [hmember]
  dsimp only
  rw [hsame]

/-- The host in the examples below. -/
def feederDb : CString := cstr "feeder.firebaseio.com"

/-- One task that fetches a short token and builds a URL. -/
theorem url_whole_short :
    ∃ s, (tokenMachine Unit feederDb parseTokenText).Reachable s
      ∧ ∃ b ∈ s.data.built,
        b.url = urlOf feederDb (cstr "devices/d") (cstr "abc") := by
  have hletters : Letters (cstr "abc") := by decide
  have hfetch := fetchToken_answer hletters (by decide)
  obtain ⟨s, hr, b, hb, hpath, htoken⟩ := exists_built () feederDb
    (cstr "devices/d") hfetch
  have hwhole := ((url_whole_iff feederDb parseTokenText hr).1 b hb).1
  rw [hpath, htoken] at hwhole
  exact ⟨s, hr, b, hb, hwhole.mpr (by decide)⟩

/-- With a token of 2048 bytes the URL that is built has 2047 of
them. -/
theorem url_token_cut :
    ∃ x s, fetchToken parseTokenText x = some (.ok (List.replicate 2048 97))
      ∧ (tokenMachine Unit feederDb parseTokenText).Reachable s
      ∧ ∃ b ∈ s.data.built, b.path.length < 128
        ∧ b.token = List.replicate 2048 97
        ∧ b.url = urlOf feederDb b.path (List.replicate 2047 97)
        ∧ b.url ≠ urlOf feederDb b.path b.token := by
  have hletters : Letters (List.replicate 2048 97) := by
    intro b hb
    rw [List.eq_of_mem_replicate hb]
    decide
  have hfetch := fetchToken_answer hletters (by rw [List.length_replicate]; decide)
  obtain ⟨s, hr, b, hb, hpath, htoken⟩ := exists_built () feederDb
    (cstr "devices/d") hfetch
  have hprinted := built_printed hr b hb
  have hurl : b.url = urlOf feederDb b.path (List.replicate 2047 97) := by
    rw [show b.url = _ from hprinted, htoken, List.take_replicate, hpath]
    refine List.take_of_length_le ?_
    rw [length_urlOf, List.length_replicate]
    decide
  refine ⟨_, s, hfetch, hr, b, hb, ?_, htoken, hurl, fun hwhole => ?_⟩
  · rw [hpath]
    decide
  · have hshort := (hprinted.whole_iff.mp hwhole).1
    rw [htoken, List.length_replicate] at hshort
    exact absurd hshort (by decide)

end SitNChow.Firebase
