/-
The correction of the sensor's clock (DFRobot_TMF8701_espidf.cpp): two
windows of five times, and the factor that `getDistance_mm` multiplies
the raw distance with.

# The log

`Log` says what the windows are for. It collects the distinct results, in
parts: `sleep` and `stopMeasurement` begin the count anew, and so a part.
A result is compared with the one before it across a `sleep`, and with
none after a `stopMeasurement`.

# The invariant

`Clocked` ties the driver to the log: the cells in use hold the times of
the latest results of this part (`Kit.Window`), and the factor is one of
its two starting values or comes from two results four apart
(`Log.Factor`). The entry that leaves a full window when the fifth is
written is the one four before it (`Holds.first`); `factor_correction` is
that step. `tof_init` hands out such a driver (`tofInit_clocked`).

# Bounds

A list in Lean takes any index. `acceptChecked` is the same code with
every access of a window and every division checked, and the checks never
fail (`acceptChecked_eq`).
-/
import SitNChow.Kit.Window
import SitNChow.Kit.Machine
import SitNChow.Tof.Init
import Mathlib.Data.List.Chain
import Mathlib.Tactic.Linarith
import Mathlib.Tactic.Positivity

namespace SitNChow.Tof

open Kit

-- =============================================================== the calls

/-- `stopMeasurement`. -/
def Driver.stopMeasurement (d : Driver) : Io Driver := do
  writeReg 0x10 [0xFF]
  return { d with
    measureCmdFlag := false
    count := 0
    timestamp := 1
    hostTime := List.replicate 5 0
    moudleTime := List.replicate 5 0
    result := .ofBytes [] }

/-- The calls; `modifyCmdSet` stands for those that change the settings. -/
inductive Call where
  | isDataReady
  | getDistanceMm
  | sleep
  | stopMeasurement
  | modifyCmdSet (index : Nat) (bit : UInt8) (val : Bool)

-- ================================================================= the log

/-- A result and `millis()` when it was read. -/
structure Sample where
  host : UInt32
  result : SResult

/-- The module's clock in it. -/
def Sample.moudle (a : Sample) : UInt32 := a.result.sysT

/-- The distinct results since the count last began anew, those of the
parts before, and the transaction that the next one is compared with. -/
structure Log where
  past : List (List Sample)
  current : List Sample
  tid : UInt8

namespace Log

def parts (l : Log) : List (List Sample) := l.past ++ [l.current]

/-- A result is added. -/
def add (host : UInt32) (result : SResult) (l : Log) : Log :=
  { l with current := l.current ++ [⟨host, result⟩], tid := result.tid }

/-- A status block has been read: a result counts when it is not that of
the transaction before. -/
def poll (host : UInt32) (block : SResult) (l : Log) : Log :=
  if block.regContents = 0x55 ∧ block.tid ≠ l.tid then l.add host block else l

/-- The count begins anew. -/
def restart (l : Log) : Log := { l with past := l.parts, current := [] }

/-- The next result is compared with none. -/
def forget (l : Log) : Log := { l.restart with tid := 0 }

/-- Two results of one part, the second four after the first. -/
def FourApart (l : Log) (a b : Sample) : Prop :=
  ∃ part ∈ l.parts, ∃ i, part[i]? = some a ∧ part[i + 4]? = some b

end Log

/-- The host's time from one result to another over the module's. -/
def ratio (a b : Sample) : Rat :=
  (b.host - a.host).toNat * 10 / ((b.moudle - a.moudle).toNat * (2 / 10) / 100)

/-- 0, 1, or a ratio near one of two results four apart, between which
the module's clock has moved on. -/
def Log.Factor (l : Log) (q : Rat) : Prop :=
  q = 0 ∨ q = 1 ∨ (7 / 10 ≤ q ∧ q ≤ 13 / 10 ∧
    ∃ a b, l.FourApart a b ∧ a.moudle < b.moudle ∧ a.host ≤ b.host ∧ q = ratio a b)

-- ============================================================= the machine

/-- The driver, its bus, and the results so far. -/
structure Tracked where
  driver : Driver
  bus : Bus
  log : Log

/-- A call. The log sees the clock and the status block that
`isDataReady` reads, and no decision of the driver's. -/
def Tracked.call (env : Env) : Call → Tracked → Tracked
  | .isDataReady, s =>
      let r := s.driver.isDataReady env s.bus
      ⟨r.1.2, r.2, s.log.poll (env s.bus.query).millis (statusBlock env s.bus.query)⟩
  | .getDistanceMm, s => { s with bus := (s.driver.getDistanceMm env s.bus).2 }
  | .sleep, s =>
      let r := s.driver.sleep env s.bus
      ⟨r.1, r.2, s.log.restart⟩
  | .stopMeasurement, s =>
      let r := s.driver.stopMeasurement env s.bus
      ⟨r.1, r.2, s.log.forget⟩
  | .modifyCmdSet index bit val, s =>
      { s with driver := s.driver.modifyCmdSet index bit val }

/-- Any calls after the constructor. -/
def sensorMachine (env : Env) : Machine Tracked Call where
  init := ⟨Driver.new, Bus.start, ⟨[], [], 0⟩⟩
  apply c s := some (s.call env c)

-- ============================================================== the checks

/-- `window[i] = x`, in bounds only. -/
def store (window : List UInt32) (i : Nat) (x : UInt32) : Option (List UInt32) :=
  if i < window.length then some (window.set i x) else none

/-- A quotient, except by zero. -/
def quotient (a b : Rat) : Option Rat := if b = 0 then none else some (a / b)

/-- `correction`, with its accesses and its division checked. -/
def correctionChecked (hostTime moudleTime : List UInt32) (timestamp : Rat) :
    Option Rat := do
  let moudle0 ← moudleTime[0]?
  let moudle4 ← moudleTime[4]?
  let host0 ← hostTime[0]?
  let host4 ← hostTime[4]?
  if moudle4 > moudle0 ∧ host4 ≥ host0 then
    let t1 : Rat := (host4 - host0).toNat * 10
    let t2 : Rat := (moudle4 - moudle0).toNat * (2 / 10) / 100
    let q ← quotient t1 t2
    return if q ≥ 7 / 10 ∧ q ≤ 13 / 10 then q else timestamp
  else return timestamp

/-- `for (int i = 0; i < 4; ++i) window[i] = window[i + 1]`. -/
def shiftChecked (window : List UInt32) : Option (List UInt32) :=
  [0, 1, 2, 3].foldlM (fun w i => do store w i (← w[i + 1]?)) window

/-- `accept`, checked. -/
def Driver.acceptChecked (t : UInt32) (result : SResult) (d : Driver) :
    Option Driver :=
  if d.count < 4 then do
    let host ← store d.hostTime d.count.toNat t
    let moudle ← store d.moudleTime d.count.toNat result.sysT
    return { d with
      result := result
      hostTime := host
      moudleTime := moudle
      count := d.count + 1 }
  else if d.count = 4 then do
    let host ← store d.hostTime d.count.toNat t
    let moudle ← store d.moudleTime d.count.toNat result.sysT
    let timestamp ← correctionChecked host moudle d.timestamp
    let hostTime ← shiftChecked host
    let moudleTime ← shiftChecked moudle
    return { d with
      result := result
      timestamp := timestamp
      hostTime := hostTime
      moudleTime := moudleTime }
  else return { d with result := result, count := 0 }

-- ============================================================ log lemmas

namespace Log

variable {l l' : Log} {a b : Sample} {q : Rat} {t : UInt32} {result : SResult}

/-- A part is there still when a result is added, perhaps longer. -/
theorem mem_parts_add {part : List Sample} (t : UInt32) (result : SResult)
    (hpart : part ∈ l.parts) : ∃ more, part ++ more ∈ (l.add t result).parts := by
  rcases List.mem_append.mp hpart with hpast | hcurrent
  · refine ⟨[], ?_⟩
    rw [List.append_nil]
    exact List.mem_append_left _ hpast
  · obtain rfl := List.mem_singleton.mp hcurrent
    exact ⟨_, List.mem_append_right _ (List.mem_singleton_self _)⟩

/-- Results that are four apart stay so when one is added. -/
theorem FourApart.add (h : l.FourApart a b) : (l.add t result).FourApart a b := by
  obtain ⟨part, hpart, i, ha, hb⟩ := h
  obtain ⟨more, hmore⟩ := mem_parts_add t result hpart
  have hlong {j : Nat} {x : Sample} (hx : part[j]? = some x) :
      (part ++ more)[j]? = some x := by
    obtain ⟨hj, -⟩ := List.getElem?_eq_some_iff.mp hx
    rw [List.getElem?_append_left hj]
    exact hx
  exact ⟨_, hmore, i, hlong ha, hlong hb⟩

/-- So they do when the count begins anew. -/
theorem FourApart.restart (h : l.FourApart a b) : l.restart.FourApart a b := by
  obtain ⟨part, hpart, i, ha, hb⟩ := h
  exact ⟨part, List.mem_append_left _ hpart, i, ha, hb⟩

/-- The result added and the one four before it. -/
theorem fourApart_add {i : Nat} (hi : i + 4 = l.current.length)
    (ha : l.current[i]? = some a) : (l.add t result).FourApart a ⟨t, result⟩ := by
  refine ⟨l.current ++ [⟨t, result⟩],
    List.mem_append_right _ (List.mem_singleton_self _), i, ?_, ?_⟩
  · rw [List.getElem?_append_left (by omega)]
    exact ha
  · rw [hi, List.getElem?_concat_length]

theorem Factor.mono (hsub : ∀ a b, l.FourApart a b → l'.FourApart a b)
    (h : l.Factor q) : l'.Factor q := by
  rcases h with h0 | h1 | ⟨hlo, hhi, a, b, hab, hrest⟩
  · exact .inl h0
  · exact .inr (.inl h1)
  · exact .inr (.inr ⟨hlo, hhi, a, b, hsub a b hab, hrest⟩)

theorem Factor.nonneg (h : l.Factor q) : 0 ≤ q := by
  rcases h with rfl | rfl | ⟨hlo, -⟩
  · exact le_refl 0
  · exact zero_le_one
  · linarith

theorem Factor.le (h : l.Factor q) : q ≤ 13 / 10 := by
  rcases h with rfl | rfl | ⟨-, hhi, -⟩
  · norm_num
  · norm_num
  · exact hhi

/-- In every part, a result is of another transaction than the one before
it, and the next one has to be as well. -/
structure Distinct (l : Log) : Prop where
  chain : ∀ part ∈ l.parts, part.IsChain fun a b => b.result.tid ≠ a.result.tid
  last : ∀ a ∈ l.current.getLast?, a.result.tid = l.tid

theorem Distinct.restart (h : l.Distinct) : l.restart.Distinct where
  chain := by
    intro part hpart
    rcases List.mem_append.mp hpart with hpast | hnew
    · exact h.chain part hpast
    · obtain rfl := List.mem_singleton.mp hnew
      exact .nil
  last := by
    intro a ha
    cases ha

theorem Distinct.poll (h : l.Distinct) (t : UInt32) (block : SResult) :
    (l.poll t block).Distinct := by
  unfold Log.poll
  split
  case isFalse => exact h
  case isTrue hnew =>
      refine ⟨?_, ?_⟩
      · intro part hpart
        rcases List.mem_append.mp hpart with hpast | hcurrent
        · exact h.chain part (List.mem_append_left _ hpast)
        · obtain rfl := List.mem_singleton.mp hcurrent
          have hchain := h.chain l.current
            (List.mem_append_right _ (List.mem_singleton_self _))
          refine hchain.append (.singleton _) ?_
          intro a ha b hb
          cases hb
          rw [h.last a ha]
          exact hnew.2
      · intro a ha
        have hlast : (l.add t block).current.getLast? = some ⟨t, block⟩ :=
          List.getLast?_concat
        rw [hlast] at ha
        cases ha
        rfl

end Log

-- ======================================================= checks that agree

section Checks

variable {host moudle window : List UInt32} {timestamp : Rat} {x y : UInt32}

theorem store_of_lt {i : Nat} (hi : i < window.length) :
    store window i x = some (window.set i x) := by
  unfold store
  rw [if_pos hi]

/-- Where the module's clock has moved on, the divisor is not zero. -/
theorem divisor_pos (h : x < y) :
    (0 : Rat) < ((y - x).toNat : Rat) * (2 / 10) / 100 := by
  have hle : x ≤ y := UInt32.le_of_lt h
  have hlt := UInt32.lt_iff_toNat_lt.mp h
  have hsub : 0 < (y - x).toNat := by
    rw [UInt32.toNat_sub_of_le _ _ hle]
    omega
  have hcast : (0 : Rat) < ((y - x).toNat : Rat) := Nat.cast_pos.mpr hsub
  positivity

theorem getElem?_of_five (h : window.length = 5) {i : Nat} (hi : i < 5) :
    window[i]? = some (window.getD i 0) := by
  have hlt : i < window.length := by omega
  rw [List.getD_eq_getElem?_getD, List.getElem?_eq_getElem hlt]
  rfl

theorem correctionChecked_eq (hhost : host.length = 5) (hmoudle : moudle.length = 5) :
    correctionChecked host moudle timestamp
      = some (correction host moudle timestamp) := by
  simp only [correctionChecked, correction,
    getElem?_of_five hhost (by omega : 0 < 5), getElem?_of_five hhost (by omega : 4 < 5),
    getElem?_of_five hmoudle (by omega : 0 < 5),
    getElem?_of_five hmoudle (by omega : 4 < 5), Option.bind_eq_bind, Option.bind_some]
  split
  case isFalse => rfl
  case isTrue hmoved =>
      rw [quotient, if_neg (ne_of_gt (divisor_pos hmoved.1))]
      rfl

theorem shiftChecked_eq (h : window.length = 5) :
    shiftChecked window = some (shift window) := by
  match window, h with
  | [_, _, _, _, _], _ => rfl

end Checks

-- =========================================================== the invariant

/-- The cells in use hold the times of the latest results of this part,
the last result is the one to compare with, and the factor is in order. -/
structure Clocked (d : Driver) (l : Log) : Prop where
  host : Window.Holds 4 d.hostTime d.count.toNat (l.current.map Sample.host)
  moudle : Window.Holds 4 d.moudleTime d.count.toNat (l.current.map Sample.moudle)
  tid : d.result.tid = l.tid
  factor : l.Factor d.timestamp

theorem clocked_new : Clocked Driver.new ⟨[], [], 0⟩ where
  host := Window.holds_nil rfl
  moudle := Window.holds_nil rfl
  tid := rfl
  factor := .inl rfl

section Accept

variable {d : Driver} {l : Log} (t : UInt32) (result : SResult)

/-- Four are counted, or fewer. -/
theorem Clocked.count_cases (h : Clocked d l) : d.count < 4 ∨ d.count = 4 := by
  have hle := h.host.le
  have hfour : (4 : UInt8).toNat = 4 := rfl
  rcases Nat.lt_or_ge d.count.toNat 4 with hlt | hge
  · exact .inl (UInt8.lt_iff_toNat_lt.mpr hlt)
  · exact .inr (UInt8.toNat_inj.mp (by omega))

theorem not_lt_of_full (hfull : d.count = 4) : ¬d.count < 4 := by
  rw [hfull]
  exact UInt8.lt_irrefl 4

/-- A result while the windows fill. -/
theorem accept_of_filling (hcount : d.count < 4) :
    d.accept t result = { d with
      result := result
      hostTime := d.hostTime.set d.count.toNat t
      moudleTime := d.moudleTime.set d.count.toNat result.sysT
      count := d.count + 1 } := if_pos hcount

/-- A result when they are full. -/
theorem accept_of_full (hfull : d.count = 4) :
    d.accept t result = { d with
      result := result
      timestamp := correction (d.hostTime.set 4 t) (d.moudleTime.set 4 result.sysT)
        d.timestamp
      hostTime := shift (d.hostTime.set 4 t)
      moudleTime := shift (d.moudleTime.set 4 result.sysT) } := by
  have hfour : d.count.toNat = 4 := by
    rw [hfull]
    rfl
  unfold Driver.accept
  rw [if_neg (not_lt_of_full hfull), if_pos hfull, hfour]

/-- No access is out of bounds, and no division by zero. -/
theorem Clocked.acceptChecked_eq (h : Clocked d l) :
    d.acceptChecked t result = some (d.accept t result) := by
  have hcount := h.host.le
  have hhost : d.hostTime.length = 5 := h.host.size
  have hmoudle : d.moudleTime.length = 5 := h.moudle.size
  have hstoreHost : store d.hostTime d.count.toNat t
      = some (d.hostTime.set d.count.toNat t) := store_of_lt (by omega)
  have hstoreMoudle : store d.moudleTime d.count.toNat result.sysT
      = some (d.moudleTime.set d.count.toNat result.sysT) := store_of_lt (by omega)
  rcases h.count_cases with hlt | hfull
  · simp only [Driver.acceptChecked, Driver.accept, if_pos hlt, hstoreHost,
      hstoreMoudle, Option.bind_eq_bind, Option.bind_some]
    rfl
  · have hnlt := not_lt_of_full hfull
    have hhost' : (d.hostTime.set d.count.toNat t).length = 5 := by
      rw [List.length_set, hhost]
    have hmoudle' : (d.moudleTime.set d.count.toNat result.sysT).length = 5 := by
      rw [List.length_set, hmoudle]
    simp only [Driver.acceptChecked, Driver.accept, if_neg hnlt, if_pos hfull,
      hstoreHost, hstoreMoudle, correctionChecked_eq hhost' hmoudle',
      shiftChecked_eq hhost', shiftChecked_eq hmoudle', Option.bind_eq_bind,
      Option.bind_some]
    rfl

/-- The fifth entry against the first: two results four apart. -/
theorem factor_correction {host moudle : List UInt32} {timestamp : Rat}
    (hhost : Window.Holds 4 host 4 (l.current.map Sample.host))
    (hmoudle : Window.Holds 4 moudle 4 (l.current.map Sample.moudle))
    (hfactor : l.Factor timestamp) :
    (l.add t result).Factor
      (correction (host.set 4 t) (moudle.set 4 result.sysT) timestamp) := by
  have hold : (l.add t result).Factor timestamp := hfactor.mono fun _ _ => .add
  have hlen : 4 ≤ l.current.length := by
    have := hhost.count
    rw [List.length_map] at this
    omega
  obtain ⟨a, ha⟩ : ∃ a, l.current[l.current.length - 4]? = some a :=
    ⟨_, List.getElem?_eq_getElem (by omega)⟩
  have hhost0 : (host.set 4 t).getD 0 0 = a.host := by
    have hfirst := hhost.first (by omega)
    rw [List.length_map, List.getElem?_map, ha] at hfirst
    rw [List.getD_eq_getElem?_getD, List.getElem?_set_ne (by omega), hfirst]
    rfl
  have hmoudle0 : (moudle.set 4 result.sysT).getD 0 0 = a.moudle := by
    have hfirst := hmoudle.first (by omega)
    rw [List.length_map, List.getElem?_map, ha] at hfirst
    rw [List.getD_eq_getElem?_getD, List.getElem?_set_ne (by omega), hfirst]
    rfl
  have hhost4 : (host.set 4 t).getD 4 0 = t := by
    rw [List.getD_eq_getElem?_getD,
      List.getElem?_set_self (by rw [hhost.size]; omega)]
    rfl
  have hmoudle4 : (moudle.set 4 result.sysT).getD 4 0 = result.sysT := by
    rw [List.getD_eq_getElem?_getD,
      List.getElem?_set_self (by rw [hmoudle.size]; omega)]
    rfl
  unfold correction
  rw [hhost0, hhost4, hmoudle0, hmoudle4]
  split
  case isFalse => exact hold
  case isTrue hmoved =>
      simp only
      split
      case isFalse => exact hold
      case isTrue hnear =>
          exact .inr (.inr ⟨hnear.1, hnear.2, a, ⟨t, result⟩,
            Log.fourApart_add (by omega) ha, hmoved.1, hmoved.2, rfl⟩)

theorem map_host_add : (l.add t result).current.map Sample.host
    = l.current.map Sample.host ++ [t] := List.map_append

theorem map_moudle_add : (l.add t result).current.map Sample.moudle
    = l.current.map Sample.moudle ++ [result.sysT] := List.map_append

/-- The windows fill. -/
theorem Clocked.fill (h : Clocked d l) (hcount : d.count < 4) :
    Clocked (d.accept t result) (l.add t result) := by
  have hlt : d.count.toNat < 4 := UInt8.lt_iff_toNat_lt.mp hcount
  have hsucc : (d.count + 1).toNat = d.count.toNat + 1 := by
    have hone : (1 : UInt8).toNat = 1 := rfl
    rw [UInt8.toNat_add]
    omega
  rw [accept_of_filling t result hcount]
  refine ⟨?_, ?_, rfl, h.factor.mono fun _ _ => .add⟩
  · rw [map_host_add, hsucc]
    exact h.host.fill hlt t
  · rw [map_moudle_add, hsucc]
    exact h.moudle.fill hlt result.sysT

/-- They move on. -/
theorem Clocked.slide (h : Clocked d l) (hfull : d.count = 4) :
    Clocked (d.accept t result) (l.add t result) := by
  have hfour : d.count.toNat = 4 := by
    rw [hfull]
    rfl
  have hhost := h.host
  have hmoudle := h.moudle
  rw [hfour] at hhost hmoudle
  rw [accept_of_full t result hfull]
  refine ⟨?_, ?_, rfl, factor_correction t result hhost hmoudle h.factor⟩
  · rw [map_host_add, hfour]
    exact hhost.slide (by omega) t
  · rw [map_moudle_add, hfour]
    exact hmoudle.slide (by omega) result.sysT

/-- A new result keeps the invariant. -/
theorem Clocked.accept (h : Clocked d l) :
    Clocked (d.accept t result) (l.add t result) := by
  rcases h.count_cases with hlt | hfull
  · exact h.fill t result hlt
  · exact h.slide t result hfull

end Accept

-- =============================================================== the calls

section Calls

variable (env : Env) {d d' : Driver} {l : Log} {bus : Bus}

/-- What `isDataReady` returns and does to the driver, with or without the
interrupt pin. -/
theorem isDataReady_driver :
    (d.isDataReady env bus).1
      = (d.isNew (statusBlock env bus.query), d.poll env bus.query) := by
  have hblock : SResult.ofBytes
      ((env (bus.query + 1)).fill (List.replicate 11 0)) = statusBlock env bus.query :=
    rfl
  simp only [Driver.isDataReady, readReg, Io.bind_run, ask_run, Io.pure_run, hblock,
    Driver.poll]
  cases hnew : d.isNew (statusBlock env bus.query) with
  | true => rfl
  | false =>
      cases hint : d.usesInt with
      | true =>
          simp only [Bool.false_eq_true, if_false, if_true, Io.bind_run]
          split <;> rfl
      | false => rfl

/-- The driver counts the results that the log does. -/
theorem isNew_iff {block : SResult} (htid : d.result.tid = l.tid) :
    d.isNew block = true ↔ block.regContents = 0x55 ∧ block.tid ≠ l.tid := by
  unfold Driver.isNew
  rw [Bool.and_eq_true, beq_iff_eq, bne_iff_ne, htid]

theorem Clocked.poll (h : Clocked d l) (query : Nat) :
    Clocked (d.poll env query)
      (l.poll (env query).millis (statusBlock env query)) := by
  unfold Driver.poll Log.poll
  by_cases hnew : d.isNew (statusBlock env query) = true
  · rw [if_pos hnew, if_pos ((isNew_iff h.tid).mp hnew)]
    exact h.accept _ _
  · rw [if_neg hnew, if_neg (mt (isNew_iff h.tid).mpr hnew)]
    exact h

theorem Clocked.sleep (h : Clocked d l) (bus : Bus) :
    Clocked (d.sleep env bus).1 l.restart where
  host := Window.holds_nil h.host.size
  moudle := Window.holds_nil h.moudle.size
  tid := h.tid
  factor := h.factor.mono fun _ _ => .restart

theorem clocked_stop (bus : Bus) : Clocked (d.stopMeasurement env bus).1 l.forget where
  host := Window.holds_nil rfl
  moudle := Window.holds_nil rfl
  tid := rfl
  factor := .inr (.inl rfl)

theorem Clocked.modifyCmdSet (h : Clocked d l) (index : Nat) (bit : UInt8)
    (val : Bool) : Clocked (d.modifyCmdSet index bit val) l := by
  unfold Driver.modifyCmdSet
  split
  · exact h
  · exact ⟨h.host, h.moudle, h.tid, h.factor⟩

/-- Every call keeps the invariant. -/
theorem Clocked.call {s : Tracked} (h : Clocked s.driver s.log) (c : Call) :
    Clocked (s.call env c).driver (s.call env c).log := by
  cases c with
  | isDataReady =>
      change Clocked (s.driver.isDataReady env s.bus).1.2 _
      rw [isDataReady_driver]
      exact h.poll env s.bus.query
  | getDistanceMm => exact h
  | sleep => exact h.sleep env s.bus
  | stopMeasurement => exact clocked_stop env s.bus
  | modifyCmdSet index bit val => exact h.modifyCmdSet index bit val

/-- Every call keeps the results distinct. -/
theorem Log.Distinct.call {s : Tracked} (h : s.log.Distinct) (c : Call) :
    (s.call env c).log.Distinct := by
  cases c with
  | isDataReady => exact h.poll _ _
  | getDistanceMm => exact h
  | sleep => exact h.restart
  | stopMeasurement =>
      refine ⟨h.restart.chain, ?_⟩
      intro a ha
      cases ha
  | modifyCmdSet index bit val => exact h

theorem clocked_of_reachable {s : Tracked} (hr : (sensorMachine env).Reachable s) :
    Clocked s.driver s.log := by
  refine hr.invariant (I := fun s => Clocked s.driver s.log) clocked_new ?_
  intro s c s' h _ happ
  cases happ
  exact h.call env c

theorem distinct_of_reachable {s : Tracked} (hr : (sensorMachine env).Reachable s) :
    s.log.Distinct := by
  refine hr.invariant (I := fun s => s.log.Distinct) ?_ ?_
  · refine ⟨?_, ?_⟩
    · intro part hpart
      obtain rfl := List.mem_singleton.mp hpart
      exact .nil
    · intro a ha
      cases ha
  · intro s c s' h _ happ
    cases happ
    exact h.call env c

end Calls

-- ============================================================= the start

section Start

variable {env : Env} {d' : Driver}

/-- The wait for the first results keeps the invariant. -/
theorem Clocked.waitResults {fuel : Nat} {d : Driver} {l : Log} {bus : Bus}
    (h : Clocked d l) (hres : (waitResults fuel d env bus).1 = some d') :
    ∃ l', Clocked d' l' := by
  induction fuel generalizing d l bus with
  | zero => cases hres
  | succ fuel ih =>
      by_cases hcount : d.count < 4
      · have hpoll := h.poll env bus.query
        simp only [Tof.waitResults, if_pos hcount, Io.bind_run,
          isDataReady_driver] at hres
        split at hres
        · exact ih hpoll hres
        · exact ih hpoll hres
      · rw [waitResults_done env hcount] at hres
        cases hres
        exact ⟨l, h⟩

/-- The driver that `tof_init` leaves behind is clocked. -/
theorem tofInit_clocked {initBuf : List (List UInt8)} {fuel : Nat} {bus : Bus}
    {m : Module} (hret : (tofInit initBuf fuel env bus).1 = some (.ok, m)) :
    ∃ d l, m.tof = some d ∧ Clocked d l := by
  rw [tofInit_eq] at hret
  rcases hstart : waitStart initBuf env bus with ⟨_ | d, bus'⟩
  · rw [hstart] at hret
    cases hret
  · rw [hstart] at hret
    obtain rfl : d = waiting := waitStart_driver initBuf env (by rw [hstart])
    obtain ⟨d', hd', hm⟩ := Option.map_eq_some_iff.mp hret
    cases hm
    have hwaiting : Clocked waiting ⟨[], [], 0⟩ :=
      ⟨Window.holds_nil rfl, Window.holds_nil rfl, rfl, .inl rfl⟩
    obtain ⟨l, hl⟩ := hwaiting.waitResults hd'
    exact ⟨_, l, rfl, hl.host, hl.moudle, hl.tid, hl.factor⟩

end Start

-- ============================================================ the distance

/-- The raw distance, in millimetres. -/
def SResult.distance (r : SResult) : UInt16 :=
  r.disH.toUInt16 <<< 8 ||| r.disL.toUInt16

theorem getDistanceMm_value (env : Env) (bus : Bus) (d : Driver) :
    (d.getDistanceMm env bus).1
      = UInt16.ofNat (d.result.distance.toNat * d.timestamp).floor.toNat := by
  unfold Driver.getDistanceMm
  cases hint : d.usesInt with
  | true => rfl
  | false => rfl

/-- The corrected distance fits: it is the product without its fraction. -/
theorem Log.Factor.distance {l : Log} {d : Driver} (h : l.Factor d.timestamp)
    (env : Env) (bus : Bus) (hraw : d.result.distance.toNat ≤ 50000) :
    ((d.getDistanceMm env bus).1.toNat : Int)
      = ⌊(d.result.distance.toNat : Rat) * d.timestamp⌋ := by
  have hraw' : (d.result.distance.toNat : Rat) ≤ 50000 := by exact_mod_cast hraw
  have hpos : 0 ≤ (d.result.distance.toNat : Rat) * d.timestamp :=
    mul_nonneg (Nat.cast_nonneg _) h.nonneg
  have hle : (d.result.distance.toNat : Rat) * d.timestamp ≤ 65000 := by
    calc (d.result.distance.toNat : Rat) * d.timestamp
        ≤ 50000 * (13 / 10) :=
          mul_le_mul hraw' h.le h.nonneg (by norm_num)
      _ = 65000 := by norm_num
  have hfloor : 0 ≤ ⌊(d.result.distance.toNat : Rat) * d.timestamp⌋ :=
    Int.floor_nonneg.mpr hpos
  have hbound : ⌊(d.result.distance.toNat : Rat) * d.timestamp⌋ ≤ 65000 := by
    have := Int.floor_le_floor hle
    rwa [show ⌊(65000 : Rat)⌋ = 65000 from Int.floor_natCast 65000] at this
  have hnat : (d.result.distance.toNat * d.timestamp).floor.toNat < UInt16.size := by
    change ⌊(d.result.distance.toNat : Rat) * d.timestamp⌋.toNat < 65536
    omega
  rw [getDistanceMm_value, UInt16.toNat_ofNat', Nat.mod_eq_of_lt hnat]
  exact Int.toNat_of_nonneg hfloor

-- ============================================================== well formed

/-- The correction of the clock is well formed. -/
structure Tracked.WellFormed (s : Tracked) : Prop where
  /-- The count is an index of the windows' last entry at most. -/
  count : s.driver.count.toNat ≤ 4
  /-- The next result is accepted with every access of the windows in
  bounds and without a division by zero. -/
  checked : ∀ t result,
    s.driver.acceptChecked t result = some (s.driver.accept t result)
  /-- The windows hold the times of the latest distinct results in order. -/
  host : s.driver.hostTime.take s.driver.count.toNat
    = Window.latest 4 (s.log.current.map Sample.host)
  moudle : s.driver.moudleTime.take s.driver.count.toNat
    = Window.latest 4 (s.log.current.map Sample.moudle)
  distinct : ∀ part ∈ s.log.parts,
    part.IsChain fun a b => b.result.tid ≠ a.result.tid
  /-- The factor is 0, 1, or a ratio near one of results four apart. -/
  factor : s.log.Factor s.driver.timestamp
  /-- A raw distance up to 50000 is corrected within 16 bits. -/
  distance : s.driver.result.distance.toNat ≤ 50000 → ∀ env bus,
    ((s.driver.getDistanceMm env bus).1.toNat : Int)
      = ⌊(s.driver.result.distance.toNat : Rat) * s.driver.timestamp⌋

/-- It is so after any calls, whatever the two clocks and the registers
are read as. -/
theorem clock_wellFormed {env : Env} {s : Tracked}
    (hr : (sensorMachine env).Reachable s) : s.WellFormed := by
  have hclocked := clocked_of_reachable env hr
  have hdistinct := distinct_of_reachable env hr
  exact
    { count := hclocked.host.le
      checked := hclocked.acceptChecked_eq
      host := hclocked.host.cells
      moudle := hclocked.moudle.cells
      distinct := hdistinct.chain
      factor := hclocked.factor
      distance := fun hraw env bus => hclocked.factor.distance env bus hraw }

/-- A result every 100 ms on a host and on a module that agree. -/
def steady : Env := fun query =>
  let turn := query / 2
  let sysT := 500000 * turn
  { ok := true
    data := some [0, 0x55, UInt8.ofNat (turn + 1), 0, 0, 0x10, 0x27,
      UInt8.ofNat sysT, UInt8.ofNat (sysT / 256), UInt8.ofNat (sysT / 65536), 0]
    stack := 0
    millis := UInt32.ofNat (100 * turn) }

/-- After five of its results the factor is 1. -/
theorem clock_wellFormed_steady :
    ∃ s, (sensorMachine steady).Reachable s ∧ s.driver.timestamp = 1
      ∧ s.WellFormed := by
  have hr : (sensorMachine steady).Reachable _ :=
    .step .isDataReady (.step .isDataReady (.step .isDataReady
      (.step .isDataReady (.step .isDataReady .init trivial rfl)
        trivial rfl) trivial rfl) trivial rfl) trivial rfl
  exact ⟨_, hr, by decide +kernel, clock_wellFormed hr⟩

end SitNChow.Tof
