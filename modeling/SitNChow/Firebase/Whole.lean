/-
`firebase_get` on a response that does not fit: an object, an array or a
string is handed over whole or not at all.

`http_event_handler` drops what does not fit without a word, so
`cJSON_Parse` gets the first 8191 bytes of the body. When the value ends
in them, what is cut off is not looked at; when it does not, no complete
value is in them (`Kit.Json.Prefixed.cut`), the parser refuses, and
`fetch_schedules` keeps its table.
-/
import SitNChow.Firebase.Response
import SitNChow.Kit.Json
import SitNChow.Schedule.Parse

namespace SitNChow.Firebase

open Kit
open Kit.Json (Blank Enclosed Prefixed blank)

/-- What a caller sees of it that has set its `cJSON *` to NULL before. -/
def Return.result (r : Return) : GetResult where
  ok := r.err == espOk
  json :=
    match r.outJson with
    | .value v => some v
    | .untouched | .null => none

/-- A failed call leaves the schedules alone. -/
theorem fetchSchedules_of_err {r : Return} (h : r.err ≠ espOk)
    (deviceId : CString) (t : Table) :
    fetchSchedules deviceId r.result t = t := by
  have hok : r.result.ok = false := by
    simp [Return.result, h]
  unfold fetchSchedules
  rw [hok]
  rfl

variable {w v w' data : List UInt8}

/-- A body that holds an enclosed value does not begin like `null`. -/
theorem ne_null_of_enclosed (hw : Blank w) (hv : Enclosed v) {t z : List UInt8}
    (ht : w ++ v ++ w' = t ++ z) : t ≠ cstr "null" := by
  rintro rfl
  have hnull : cstr "null" = [110, 117, 108, 108] := by decide
  rw [hnull] at ht
  cases w with
  | nil =>
      obtain ⟨b, x, rfl, hb⟩ := hv.head
      injection ht with hhead
      rw [hhead] at hb
      rcases hb with hb | hb <;> cases hb
  | cons a w =>
      have ha := hw a List.mem_cons_self
      injection ht with hhead
      rw [hhead] at ha
      cases ha

/-- A response that is an object, an array or a string, of any length and
in any chunks, is handed over as the parse of the whole body or is an
error with `*out_json` NULL; it is an error when the value does not fit
in the usable bytes, and then the schedules are left alone. -/
theorem oversized_get {parse : Parser} (hparse : Prefixed parse) (hw : Blank w)
    (hv : Enclosed v) (hw' : Blank w') {p : Performed}
    (hp : p.err = espOk ∧ 200 ≤ p.status ∧ p.status < 300)
    (hbody : p.events.flatten = w ++ v ++ w') :
    ∃ ret, firebaseGet parse true true true p = some ret
      ∧ ((ret.err = espOk ∧ ∃ value, parse (w ++ v ++ w') = some value
          ∧ ret.outJson = .value value)
        ∨ (ret.err ≠ espOk ∧ ret.outJson = .null))
      ∧ (usable < (w ++ v).length →
        ret.err ≠ espOk ∧ ret.outJson = .null
          ∧ ∀ deviceId t, fetchSchedules deviceId ret.result t = t) := by
  obtain ⟨err, status, events⟩ := p
  obtain ⟨rfl, hstatus⟩ := hp
  have hget := firebaseGet_ok parse true hstatus events
  rw [hbody] at hget
  refine ⟨_, hget, ?_⟩
  have hsplit := (List.take_append_drop usable (w ++ v ++ w')).symm
  have hnul : ∀ b ∈ (w ++ v ++ w').take usable, b ≠ 0 := by
    intro b hb
    rcases List.mem_append.mp (List.mem_of_mem_take hb) with hb | hb
    · rcases List.mem_append.mp hb with hb | hb
      · exact hw.ne_nul b hb
      · exact hv.text.ne_nul b hb
    · exact hw'.ne_nul b hb
  unfold accept parseText
  rw [if_pos rfl, textOf_eq_self hnul, if_neg (ne_null_of_enclosed hw hv hsplit)]
  by_cases hfits : (w ++ v).length ≤ usable
  · -- the value is there; what follows it makes no difference
    have hsame : parse ((w ++ v ++ w').take usable) = parse (w ++ v ++ w') := by
      rw [List.take_append, List.take_of_length_le hfits,
        hparse.anything w v _ hw hv, hparse.anything w v w' hw hv]
    rw [hsame]
    refine ⟨?_, fun hlong => absurd hfits (Nat.not_le_of_lt hlong)⟩
    cases hvalue : parse (w ++ v ++ w') with
    | none => exact .inr ⟨espFail_ne_espOk, rfl⟩
    | some value => exact .inl ⟨rfl, value, rfl, rfl⟩
  · -- the value is cut short
    have hlong := Nat.lt_of_not_le hfits
    have hcut : parse ((w ++ v ++ w').take usable) = none := by
      rw [List.take_append_of_le_length (Nat.le_of_lt hlong)]
      refine hparse.cut hw hv (List.take_append_drop usable (w ++ v)).symm ?_
      intro hnil
      exact absurd (List.drop_eq_nil_iff.mp hnil) hfits
    rw [hcut]
    refine ⟨.inr ⟨espFail_ne_espOk, rfl⟩,
      fun _ => ⟨espFail_ne_espOk, rfl, fun deviceId t => ?_⟩⟩
    exact fetchSchedules_of_err espFail_ne_espOk deviceId t

/-- A parser of empty arrays, which it reads as `cJSON_Parse` does. -/
def parseEmptyArray : Parser := fun text =>
  let value := text.dropWhile blank
  if value.head? = some 91 ∧ (value.tail.dropWhile blank).head? = some 93 then
    some (.array [])
  else none

/-- Blanks are skipped up to the first byte that is none, whatever
follows. -/
theorem dropWhile_blank_append {x rest : List UInt8}
    (h : x.dropWhile blank ≠ []) :
    (x ++ rest).dropWhile blank = x.dropWhile blank ++ rest := by
  rw [List.dropWhile_append, if_neg]
  simpa using h

theorem parseEmptyArray_prefixed : Prefixed parseEmptyArray where
  accepted := by
    intro t value _ hparse
    unfold parseEmptyArray at hparse
    dsimp only at hparse
    split at hparse
    · next hshape =>
      obtain ⟨x, hx⟩ := List.head?_eq_some_iff.mp hshape.1
      rw [hx, List.tail_cons] at hshape
      obtain ⟨rest, hrest⟩ := List.head?_eq_some_iff.mp hshape.2
      have hblank : ∀ l : List UInt8, Blank (l.takeWhile blank) := fun l b hb =>
        (List.mem_takeWhile_imp hb)
      refine ⟨t.takeWhile blank, 91 :: x.takeWhile blank ++ [93], rest, ?_,
        .inl (hblank t), .emptyArray (hblank x)⟩
      have hsplit : x.takeWhile blank ++ 93 :: rest = x := by
        rw [← hrest, List.takeWhile_append_dropWhile]
      rw [List.append_assoc, List.append_assoc, List.cons_append,
        List.singleton_append, hsplit, ← hx, List.takeWhile_append_dropWhile]
    · cases hparse
  anything := by
    intro w v rest hw hv
    obtain ⟨b, x, rfl, hb⟩ := hv.text.head
    have hvalue : ∀ y, (w ++ (b :: x) ++ y).dropWhile blank = b :: (x ++ y) := by
      intro y
      rw [List.append_assoc, List.dropWhile_append_of_pos hw, List.cons_append,
        List.dropWhile_cons_of_neg (by simp [hb])]
    have hvalue₀ := hvalue []
    rw [List.append_nil, List.append_nil] at hvalue₀
    unfold parseEmptyArray
    dsimp only
    rw [hvalue rest, hvalue₀, List.tail_cons, List.tail_cons]
    rcases hv.shape with ⟨s, -, hshape⟩ | ⟨o, y, c, -, -, hc, hshape⟩
    · -- a string is no array
      injection hshape with hquote
      have hno : ¬ (some b = some (91 : UInt8)) := by
        rw [hquote]
        decide
      simp only [List.head?_cons, hno, false_and, if_false]
    · -- the first byte behind the bracket that is no blank is in the value
      injection hshape with _ hx
      have hne : x.dropWhile blank ≠ [] := by
        intro hnil
        have hall := List.dropWhile_eq_nil_iff.mp hnil c (by rw [hx]; simp)
        simp only [Json.closing, Bool.or_eq_true, beq_iff_eq] at hc
        rcases hc with rfl | rfl <;> cases hall
      rw [dropWhile_blank_append hne, List.head?_append_of_ne_nil _ hne]
      rfl

/-- An array of 9000 blanks does not fit, and is refused. -/
theorem oversized_get_blanks :
    ∃ ret, firebaseGet parseEmptyArray true true true
        ⟨espOk, 200, [91 :: List.replicate 9000 32 ++ [93]]⟩ = some ret
      ∧ ret.err ≠ espOk ∧ ret.outJson = .null
      ∧ fetchSchedules (cstr "feeder") ret.result Table.boot = Table.boot := by
  have hnone : Blank [] := List.forall_mem_nil _
  have hblank : Blank (List.replicate 9000 32) := by
    intro b hb
    rw [List.eq_of_mem_replicate hb]
    rfl
  have hv : Enclosed (91 :: List.replicate 9000 32 ++ [93]) :=
    ⟨.emptyArray hblank, 91, _, rfl, .inr rfl⟩
  have hok : espOk = espOk ∧ (200 : Int) ≤ 200 ∧ (200 : Int) < 300 := by decide
  have hlong : usable < ([] ++ (91 :: List.replicate 9000 (32 : UInt8) ++ [93])).length := by
    simp only [List.nil_append, List.length_append, List.length_cons,
      List.length_replicate]
    decide
  have hbody : List.flatten [91 :: List.replicate 9000 (32 : UInt8) ++ [93]]
      = [] ++ (91 :: List.replicate 9000 32 ++ [93]) ++ [] := by
    rw [List.flatten_singleton, List.nil_append, List.append_nil]
  obtain ⟨ret, hget, -, hcut⟩ := oversized_get
    (p := ⟨espOk, 200, [91 :: List.replicate 9000 32 ++ [93]]⟩)
    parseEmptyArray_prefixed hnone hv hnone hok hbody
  obtain ⟨herr, hjson, hkeep⟩ := hcut hlong
  exact ⟨ret, hget, herr, hjson, hkeep (cstr "feeder") Table.boot⟩

end SitNChow.Firebase
