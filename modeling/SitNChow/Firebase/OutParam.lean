/-
What the three GETs leave in `*out_json` (firebase_client.c).

All of them set it to NULL behind their request (`Return.Reset`), and
`streaming_get` and `firebase_get` have exits before that point: no room
for the URL, and, with the request itself, a failed open, a status that
is not 2xx and no room for the response. There `*out_json` stays as the
caller had it, so the header's "NULL on error" holds of such a call
exactly when it was NULL before (`out_json_defined_iff`).
-/
import SitNChow.Firebase.Response

namespace SitNChow.Firebase

universe u

variable {α : Type u} {parse : Parser} {before : Option α} {ret : Return}

-- ======================================================== the out parameter

/-- What `*out_json` holds: NULL, a pointer of the caller's, or a value
the call has parsed. -/
inductive Held (α : Type u) where
  | null
  | own (p : α)
  | fresh (v : CJson)

/-- `*out_json` after the call, from what it held before. -/
def OutJson.held (before : Option α) : OutJson → Held α
  | .untouched =>
      match before with
      | none => .null
      | some p => .own p
  | .null => .null
  | .value v => .fresh v

/-- As the header says: NULL on an error, and NULL or a value that has
been parsed on success. -/
structure Return.Defined (parse : Parser) (before : Option α) (ret : Return) :
    Prop where
  onError : ret.err ≠ espOk → ret.outJson.held before = .null
  onOk : ret.err = espOk → ret.outJson.held before = .null
    ∨ ∃ text v, parse text = some v ∧ ret.outJson.held before = .fresh v

/-- Then a caller that frees what it finds there does not free its own
pointer. -/
theorem Return.Defined.ne_own (h : ret.Defined parse before) (p : α) :
    ret.outJson.held before ≠ .own p := by
  intro hown
  by_cases hok : ret.err = espOk
  · rcases h.onOk hok with hnull | ⟨text, v, -, hfresh⟩
    · cases hown.symm.trans hnull
    · cases hown.symm.trans hfresh
  · cases hown.symm.trans (h.onError hok)

/-- The call has come past `*out_json = NULL`. -/
def Return.Reset (parse : Parser) (ret : Return) : Prop :=
  ret.outJson = .null
    ∨ ret.err = espOk ∧ ∃ text v, parse text = some v ∧ ret.outJson = .value v

theorem Return.Reset.defined (h : ret.Reset parse) (before : Option α) :
    ret.Defined parse before := by
  obtain ⟨err, outJson⟩ := ret
  rcases h with rfl | ⟨hok, text, v, hparse, rfl⟩
  · exact ⟨fun _ => rfl, fun _ => .inl rfl⟩
  · exact ⟨fun hne => absurd hok hne, fun _ => .inr ⟨text, v, hparse, rfl⟩⟩

/-- An error before that point is as the header says when the caller had
NULL there. -/
theorem defined_untouched_iff {err : Int} (herr : err ≠ espOk) :
    (Return.mk err .untouched).Defined parse before ↔ before = none := by
  constructor
  · intro h
    have hnull := h.onError herr
    cases before with
    | none => rfl
    | some p => cases hnull
  · rintro rfl
    exact ⟨fun _ => rfl, fun hok => absurd hok herr⟩

-- ============================================================== the calls

theorem parseText_reset (parse : Parser) (text : CString) :
    (parseText parse text).Reset parse := by
  unfold parseText
  split
  · exact .inl rfl
  · cases hparse : parse text with
    | none => exact .inl rfl
    | some v => exact .inr ⟨rfl, text, v, hparse, rfl⟩

theorem get_reset {b : Buffer} {ts : List Turn}
    (h : b.get parse true ts = some ret) : ret.Reset parse := by
  unfold Buffer.get at h
  split at h
  · rw [← Option.some.inj h]
    unfold Buffer.finish
    rw [if_pos rfl]
    split
    · exact parseText_reset _ _
    · exact .inl rfl
  · cases h
  · cases h

theorem firebaseGet_reset {calloc : Bool} {p : Performed}
    (h : firebaseGet parse true true calloc p = some ret) : ret.Reset parse := by
  unfold firebaseGet at h
  rw [if_pos rfl] at h
  obtain ⟨⟨err, body⟩, -, rfl⟩ := Option.map_eq_some_iff.mp h
  dsimp only
  rw [if_pos rfl]
  cases body with
  | none => exact .inl rfl
  | some buf =>
      dsimp only
      split
      · exact parseText_reset _ _
      · exact .inl rfl

/-- The request has been answered and there is room for the response. -/
structure Exchange.Answered (x : Exchange) : Prop where
  opened : x.openErr = espOk
  status : 200 ≤ x.status ∧ x.status < 300
  room : x.allocate ≠ none

/-- `streaming_get` leaves before the reset, with an error, exactly when
the request has not been answered or there is no room. -/
theorem streamingGet_cases {x : Exchange}
    (h : streamingGet parse true x = some ret) :
    (x.Answered ∧ ret.Reset parse)
      ∨ (¬ x.Answered ∧ ∃ err, err ≠ espOk ∧ ret = ⟨err, .untouched⟩) := by
  unfold streamingGet at h
  split at h
  · next hopen =>
    exact .inr ⟨fun ha => hopen ha.opened, x.openErr, hopen,
      (Option.some.inj h).symm⟩
  · next hopen =>
    split at h
    · next hstatus =>
      refine .inr ⟨fun ha => ?_, espFail, espFail_ne_espOk, (Option.some.inj h).symm⟩
      have := ha.status
      omega
    · next hstatus =>
      split at h
      · next hroom =>
        exact .inr ⟨fun ha => ha.room hroom, espErrNoMem, espErrNoMem_ne_espOk,
          (Option.some.inj h).symm⟩
      · next b hroom =>
        refine .inl ⟨⟨not_not.mp hopen, by omega, ?_⟩, get_reset h⟩
        rw [hroom]
        exact Option.some_ne_none b

/-- The two calls through `streaming_get`. -/
theorem streaming_defined_iff {url : Bool} {x : Exchange}
    (h : (if url then streamingGet parse true x
      else some ⟨espErrNoMem, .untouched⟩) = some ret) :
    ret.Defined parse before ↔ before = none ∨ (url = true ∧ x.Answered) := by
  cases url with
  | false =>
      rw [if_neg Bool.false_ne_true] at h
      rw [← Option.some.inj h, defined_untouched_iff espErrNoMem_ne_espOk]
      simp
  | true =>
      rw [if_pos rfl] at h
      rcases streamingGet_cases h with ⟨hans, hreset⟩ | ⟨hno, err, herr, rfl⟩
      · exact ⟨fun _ => .inr ⟨rfl, hans⟩, fun _ => hreset.defined before⟩
      · rw [defined_untouched_iff herr]
        exact ⟨.inl, fun hor => hor.resolve_right fun hr => hno hr.2⟩

/-- Whatever `*out_json` held before and whatever the call meets: it is
as the header says exactly when it held NULL, or the call has come to its
reset, that is, `firebase_get` has room for its URL, and the other two
have that, an open connection, a 2xx status and room for the response. -/
theorem out_json_defined_iff (parse : Parser) (before : Option α) (url : Bool)
    (ret : Return) :
    (∀ calloc p, firebaseGet parse true url calloc p = some ret →
        (ret.Defined parse before ↔ before = none ∨ url = true))
      ∧ (∀ x, firebaseGetIntercom parse true url x = some ret →
        (ret.Defined parse before ↔ before = none ∨ (url = true ∧ x.Answered)))
      ∧ ∀ x, firebaseGetCameraPoll parse true url x = some ret →
        (ret.Defined parse before
          ↔ before = none ∨ (url = true ∧ x.Answered)) := by
  refine ⟨fun calloc p h => ?_, fun x h => streaming_defined_iff h,
    fun x h => streaming_defined_iff h⟩
  cases url with
  | false =>
      have hret : some ⟨espErrNoMem, .untouched⟩ = some ret := h
      rw [← Option.some.inj hret, defined_untouched_iff espErrNoMem_ne_espOk]
      simp
  | true =>
      exact ⟨fun _ => .inr rfl, fun _ => (firebaseGet_reset h).defined before⟩

/-- A null node is NULL for the caller, whatever it had there. -/
theorem out_json_defined_null :
    (Return.mk espOk .null).Defined parseDigits (some ()) := by
  refine ((out_json_defined_iff parseDigits (some ()) true ⟨espOk, .null⟩).2.1
    ⟨espOk, 200, some fun _ => 7, none, [⟨.eof, none⟩]⟩ ?_).mpr (.inr ⟨rfl, ?_⟩)
  · rfl
  · exact ⟨rfl, by decide, Option.some_ne_none _⟩

/-- When the connection cannot be opened, the caller finds its own pointer
again, with an error. -/
theorem out_json_stale :
    ∃ ret, firebaseGetIntercom parseDigits true true ⟨espFail, 0, none, none, []⟩
        = some ret
      ∧ ret.err ≠ espOk ∧ ret.outJson.held (some ()) = .own ()
      ∧ ¬ ret.Defined parseDigits (some ()) := by
  refine ⟨⟨espFail, .untouched⟩, rfl, espFail_ne_espOk, rfl, fun h => ?_⟩
  exact h.ne_own () rfl

end SitNChow.Firebase
