/-
The start of the sensor (tof.c, `tof_init`), and when it returns.

# The waits

Every wait on the way is bounded but one: `while (_count < 4)` in
`setCaibrationMode` asks for results until it has four. `waitStart` is
the call up to that loop. It either has failed by then, or the driver is
in one fixed state (`waitStart_driver`), with no result counted and no
interrupt pin, so that a turn of the loop reads one status block.

# The count

A block counts when it has result contents and another transaction than
the last one counted (`newResults`). `waitResults_isSome_iff` is the
induction over the turns: the loop is through once four of the blocks
count. `tofInit_returns_iff` states it of the call; a sensor that answers
the probe and `begin` and then has no results keeps it waiting for good
(`tofInit_waits_forever`).
-/
import SitNChow.Tof.Sensor

namespace SitNChow.Tof

-- ================================================================ tof_init

/-- The errors `tof_init` returns. -/
inductive EspErr where
  | ok
  | fail
deriving DecidableEq

/-- `s_tof` and `s_ready`. -/
structure Module where
  tof : Option Driver
  ready : Bool

/-- `CALIB_DATA`. -/
def calibData : List UInt8 :=
  [0x0F, 0x3F, 0x8A, 0x01, 0x00, 0x00, 0x00, 0x00, 0x41, 0x57, 0x01, 0x00, 0x00,
    0x00]

/-- The attempts at `tmf8701_begin` left; the driver, once one succeeds. -/
def beginAttempts (initBuf : List (List UInt8)) :
    Nat → Driver → Io (Option Driver)
  | 0, _ => pure none
  | attempts + 1, d => do
      let (found, d) ← d.beginSensor initBuf
      if found then return some d else beginAttempts initBuf attempts d

/-- `tof_init` up to the calibration data: nothing when it has failed.
The probe and the allocation in `tmf8701_create` may fail. -/
def findSensor (initBuf : List (List UInt8)) : Io (Option Driver) := do
  if (← ask).ok then
    if (← ask).ok then
      let found ← beginAttempts initBuf 5 Driver.new
      return found.map fun d => (d.setCalibrationData calibData).2
    else return none
  else return none

/-- `tof_init` with the bus installed: what it returns and leaves behind,
or nothing while it waits. -/
def tofInit (initBuf : List (List UInt8)) (fuel : Nat) :
    Io (Option (EspErr × Module)) := do
  match ← findSensor initBuf with
  | none => return some (.fail, ⟨none, false⟩)
  | some d =>
      match ← d.startMeasurement fuel .noCalib .combine with
      | none => return none
      | some (false, _) => return some (.fail, ⟨none, false⟩)
      | some (true, d) => return some (.ok, ⟨some d, true⟩)

/-- `tof_init` up to the wait for the first results: nothing when it has
failed. -/
def waitStart (initBuf : List (List UInt8)) : Io (Option Driver) := do
  match ← findSensor initBuf with
  | none => return none
  | some d => return some (← (d.setDistanceMode .combine).sendCommand .noCalib)

-- ========================================================= the status blocks

/-- The status block that `isDataReady` reads when it begins at a query:
after `millis()`, into a zeroed buffer. -/
def statusBlock (env : Env) (query : Nat) : SResult :=
  .ofBytes ((env (query + 1)).fill (List.replicate 11 0))

/-- The status blocks of so many turns of the wait. -/
def polls (env : Env) : Nat → Nat → List SResult
  | _, 0 => []
  | query, turns + 1 => statusBlock env query :: polls env (query + 2) turns

/-- How many of the blocks are new results, after one with this `tid`. -/
def newResults : UInt8 → List SResult → Nat
  | _, [] => 0
  | tid, r :: rs =>
      if r.regContents == 0x55 && r.tid != tid then newResults r.tid rs + 1
      else newResults tid rs

/-- A status block counts when it has a result and a number that differs from
the last. -/
theorem newResults_cons (tid : UInt8) (r : SResult) (rs : List SResult) :
    newResults tid (r :: rs) =
      if r.regContents == 0x55 && r.tid != tid then newResults r.tid rs + 1
      else newResults tid rs := rfl

-- ============================================================== computations

section Io

variable {α β : Type} (env : Env) (bus : Bus)

@[simp] theorem Io.pure_run (a : α) : (pure a : Io α) env bus = (a, bus) := rfl

@[simp] theorem Io.bind_run (x : Io α) (f : α → Io β) :
    (x >>= f) env bus = f (x env bus).1 env (x env bus).2 := rfl

@[simp] theorem Io.map_run (f : α → β) (x : Io α) :
    (f <$> x) env bus = (f (x env bus).1, (x env bus).2) := rfl

/-- A query takes the next answer of the environment. -/
@[simp] theorem ask_run :
    ask env bus = (env bus.query, { bus with query := bus.query + 1 }) := rfl

/-- A write asks nothing. -/
@[simp] theorem writeReg_query (reg : UInt8) (data : List UInt8) :
    (writeReg reg data env bus).2.query = bus.query := by
  unfold writeReg
  split <;> rfl

/-- What every check of a wait keeps of the bus, the wait keeps. -/
theorem waitTurns_bus {env : Env} {check : Io Bool} {P : Bus → Prop}
    (hcheck : ∀ bus, P bus → P (check env bus).2) (turns : Nat) {bus : Bus}
    (hbus : P bus) : P (waitTurns check turns env bus).2 := by
  induction turns generalizing bus with
  | zero => exact hbus
  | succ turns ih =>
      simp only [waitTurns, Io.bind_run]
      split
      · exact hcheck bus hbus
      · exact ih (hcheck bus hbus)

/-- A check of the status only goes on with the queries. -/
theorem checkStatusRegister_query (status : UInt8) :
    bus.query ≤ (checkStatusRegister status env bus).2.query := by
  have hcheck : ∀ bus' : Bus, bus.query ≤ bus'.query →
      bus.query ≤ ((do return (← getRegContents) == status) env bus').2.query :=
    fun _ hbus => Nat.le_succ_of_le hbus
  exact waitTurns_bus (P := fun bus' => bus.query ≤ bus'.query) hcheck _ (Nat.le_refl _)

end Io

-- ========================================================= up to the wait

section Start

variable (initBuf : List (List UInt8)) (env : Env)

/-- An attempt on a new driver changes nothing but `_initialize`. -/
theorem beginSensor_new (bus : Bus) :
    ∃ found, (Driver.new.beginSensor initBuf env bus).1
      = (found, { Driver.new with initialized := found }) := by
  simp only [Driver.beginSensor, Driver.sleep, Io.bind_run]
  split
  · simp only [Io.bind_run]
    split
    · exact ⟨true, rfl⟩
    · exact ⟨false, rfl⟩
  · exact ⟨false, rfl⟩

/-- So a failed attempt leaves a new driver, and the attempts find the
driver in one state only. -/
theorem beginAttempts_new {attempts : Nat} {bus : Bus} {d : Driver}
    (h : (beginAttempts initBuf attempts Driver.new env bus).1 = some d) :
    d = { Driver.new with initialized := true } := by
  induction attempts generalizing bus with
  | zero => cases h
  | succ attempts ih =>
      simp only [beginAttempts, Io.bind_run] at h
      obtain ⟨found, hfound⟩ := beginSensor_new initBuf env bus
      rw [hfound] at h
      cases found with
      | false => exact ih h
      | true => cases h; rfl

/-- A sensor that is found leaves a driver with its calibration data. -/
theorem findSensor_driver {bus : Bus} {d : Driver}
    (h : (findSensor initBuf env bus).1 = some d) :
    d = { Driver.new with initialized := true, calibData := calibData } := by
  simp only [findSensor, Io.bind_run] at h
  split at h
  · simp only [Io.bind_run] at h
    split at h
    · simp only [Io.bind_run, Io.pure_run, Option.map_eq_some_iff] at h
      obtain ⟨d₀, hd₀, rfl⟩ := h
      rw [beginAttempts_new initBuf env hd₀]
      rfl
    · cases h
  · cases h

/-- Without calibration the command is sent as it is, its two flags cleared.
-/
theorem sendCommand_noCalib (d : Driver) (bus : Bus) :
    d.sendCommand .noCalib env bus =
      let d := (d.modifyCmdSet cmd7 bitCalib false).modifyCmdSet cmd7 bitAlgo false
      (d, (checkStatusRegister 0x55 env
        (writeReg 0x08 d.measureCmdSet env bus).2).2) := rfl

/-- The driver when the wait begins. -/
def waiting : Driver :=
  { Driver.new with
    initialized := true
    calibData := calibData
    measureCmdSet := [0x00, 0x23, 0x00, 0x00, 0x00, 0x64, 0xFF, 0xFF, 0x02] }

/-- The wait begins with this driver, whatever the sensor has answered. -/
theorem waitStart_driver {bus : Bus} {d : Driver}
    (h : (waitStart initBuf env bus).1 = some d) : d = waiting := by
  simp only [waitStart, Io.bind_run] at h
  cases hfind : (findSensor initBuf env bus).1 with
  | none => rw [hfind] at h; cases h
  | some d₀ =>
      rw [hfind, findSensor_driver initBuf env hfind] at h
      cases h
      rfl

/-- On a driver that has begun and is not measuring, the start of a
measurement sends the command and waits. -/
theorem startMeasurement_run {d sent : Driver} {mode : CalibMode}
    {disMode : DistanceMode} {bus bus' : Bus} (hbegun : d.initialized = true)
    (hidle : d.measureCmdFlag = false)
    (hsent : (d.setDistanceMode disMode).sendCommand mode env bus = (sent, bus'))
    (fuel : Nat) :
    (d.startMeasurement fuel mode disMode env bus).1 =
      (waitResults fuel sent env bus').1.map fun d =>
        (true, { d with measureCmdFlag := true }) := by
  have hb : (d.setDistanceMode disMode).initialized = true := by
    cases disMode <;> simpa [Driver.setDistanceMode] using hbegun
  have hi : (d.setDistanceMode disMode).measureCmdFlag = false := by
    cases disMode <;> simpa [Driver.setDistanceMode] using hidle
  simp [Driver.startMeasurement, Driver.setCaibrationMode, hb, hi, hsent]

/-- The call fails before the wait, or returns with success after it. -/
theorem tofInit_eq (fuel : Nat) (bus : Bus) :
    (tofInit initBuf fuel env bus).1 =
      match waitStart initBuf env bus with
      | (none, _) => some (.fail, ⟨none, false⟩)
      | (some d, bus) => (waitResults fuel d env bus).1.map fun d =>
          (.ok, ⟨some { d with measureCmdFlag := true }, true⟩) := by
  simp only [tofInit, waitStart, Io.bind_run]
  cases hfind : (findSensor initBuf env bus).1 with
  | none => rfl
  | some d =>
      have hd := findSensor_driver initBuf env hfind
      rcases hsent : (d.setDistanceMode .combine).sendCommand .noCalib env
        (findSensor initBuf env bus).2 with ⟨sent, bus'⟩
      have hrun := startMeasurement_run env (by rw [hd]) (by rw [hd]; rfl) hsent fuel
      simp only [Io.bind_run, Io.pure_run, hsent]
      cases hres : (waitResults fuel sent env bus').1 with
      | none => rw [hrun, hres]; rfl
      | some d' => rw [hrun, hres]; rfl

end Start

-- ================================================================ the wait

section Wait

variable (env : Env) {d : Driver} {bus : Bus}

/-- The driver after a poll that begins at a query. -/
def Driver.poll (query : Nat) (d : Driver) : Driver :=
  if d.isNew (statusBlock env query) then
    d.accept (env query).millis (statusBlock env query)
  else d

/-- A poll makes two queries, the second of which reads the status block. -/
theorem isDataReady_run (hint : d.usesInt = false) :
    d.isDataReady env bus =
      ((d.isNew (statusBlock env bus.query), d.poll env bus.query),
        { bus with query := bus.query + 2 }) := by
  have hblock : SResult.ofBytes
      ((env (bus.query + 1)).fill (List.replicate 11 0)) = statusBlock env bus.query :=
    rfl
  simp only [Driver.isDataReady, readReg, Io.bind_run, ask_run, Io.pure_run, hblock,
    Driver.poll]
  cases hnew : d.isNew (statusBlock env bus.query) with
  | true => rfl
  | false => simp [hint]

/-- Reading the distance asks nothing more. -/
theorem getDistanceMm_bus (hint : d.usesInt = false) :
    (d.getDistanceMm env bus).2 = bus := by
  simp [Driver.getDistanceMm, hint]

@[simp] theorem poll_usesInt (query : Nat) :
    (d.poll env query).usesInt = d.usesInt := by
  unfold Driver.poll
  split
  · exact accept_usesInt _ _ _
  · rfl

/-- A turn of the wait is one poll. -/
theorem waitResults_turn (hint : d.usesInt = false) (hcount : d.count < 4)
    (fuel : Nat) :
    waitResults (fuel + 1) d env bus
      = waitResults fuel (d.poll env bus.query) env
          { bus with query := bus.query + 2 } := by
  simp only [waitResults, if_pos hcount, Io.bind_run, isDataReady_run env hint]
  cases d.isNew (statusBlock env bus.query) with
  | false => rfl
  | true =>
      have hpoll : (d.poll env bus.query).usesInt = false := by
        rw [poll_usesInt]
        exact hint
      simp only [if_true, Io.bind_run, getDistanceMm_bus env hpoll]

/-- With four results the wait is over. -/
theorem waitResults_done (hcount : ¬d.count < 4) (fuel : Nat) :
    waitResults (fuel + 1) d env bus = (some d, bus) := by
  simp only [waitResults, if_neg hcount]
  rfl

/-- What a poll does to the results still to come: a new one is counted
and is the last one from then on. -/
theorem poll_count (hcount : d.count < 4) (query : Nat) (rs : List SResult) :
    (d.poll env query).count.toNat + newResults (d.poll env query).result.tid rs
      = d.count.toNat + newResults d.result.tid (statusBlock env query :: rs) := by
  rw [newResults_cons, ← Driver.isNew, Driver.poll]
  cases hnew : d.isNew (statusBlock env query) with
  | true =>
      have hsucc : (d.count + 1).toNat = d.count.toNat + 1 := by
        have := UInt8.lt_iff_toNat_lt.mp hcount
        rw [UInt8.toNat_add]
        have : (4 : UInt8).toNat = 4 := rfl
        have : (1 : UInt8).toNat = 1 := rfl
        omega
      rw [if_pos rfl, if_pos rfl, accept_count _ _ hcount, accept_result, hsucc]
      omega
  | false => rfl

/-- The wait is through after so many turns when four of the status blocks
read in them count. -/
theorem waitResults_isSome_iff (hint : d.usesInt = false) (turns : Nat) :
    (waitResults (turns + 1) d env bus).1.isSome ↔
      4 ≤ d.count.toNat + newResults d.result.tid (polls env bus.query turns) := by
  induction turns generalizing d bus with
  | zero =>
      by_cases hcount : d.count < 4
      · have := UInt8.lt_iff_toNat_lt.mp hcount
        have : (4 : UInt8).toNat = 4 := rfl
        rw [waitResults_turn env hint hcount]
        simp only [waitResults, polls, newResults, Io.pure_run, Option.isSome_none]
        constructor
        · intro h; cases h
        · intro h; omega
      · have := UInt8.le_iff_toNat_le.mp (UInt8.not_lt.mp hcount)
        rw [waitResults_done env hcount]
        exact ⟨fun _ => by change 4 ≤ d.count.toNat at this; omega, fun _ => rfl⟩
  | succ turns ih =>
      by_cases hcount : d.count < 4
      · rw [waitResults_turn env hint hcount, ih ((poll_usesInt env _).trans hint),
          poll_count env hcount]
        rfl
      · have := UInt8.le_iff_toNat_le.mp (UInt8.not_lt.mp hcount)
        rw [waitResults_done env hcount]
        exact ⟨fun _ => by change 4 ≤ d.count.toNat at this; omega, fun _ => rfl⟩

end Wait

-- ============================================================== the returns

/-- Where the call comes to the wait, it returns when four of the status
blocks count. -/
theorem tofInit_isSome_iff {initBuf : List (List UInt8)} {env : Env}
    {bus bus' : Bus} {d : Driver}
    (hstart : waitStart initBuf env bus = (some d, bus')) (turns : Nat) :
    (tofInit initBuf (turns + 1) env bus).1.isSome ↔
      4 ≤ newResults 0 (polls env bus'.query turns) := by
  obtain rfl : d = waiting := waitStart_driver initBuf env (by rw [hstart])
  rw [tofInit_eq, hstart, Option.isSome_map, waitResults_isSome_iff env rfl]
  change 4 ≤ 0 + newResults 0 _ ↔ _
  rw [Nat.zero_add]

/-- `tof_init` returns if and only if, where it comes to the wait, four of
the status blocks read from there on are new results. -/
theorem tofInit_returns_iff (initBuf : List (List UInt8)) (env : Env) :
    (∃ fuel returned, (tofInit initBuf fuel env Bus.start).1 = some returned) ↔
      ∀ d bus, waitStart initBuf env Bus.start = (some d, bus) →
        ∃ turns, 4 ≤ newResults 0 (polls env bus.query turns) := by
  constructor
  · rintro ⟨fuel, returned, hret⟩ d bus hstart
    cases fuel with
    | zero =>
        rw [tofInit_eq, hstart] at hret
        cases hret
    | succ turns =>
        exact ⟨turns, (tofInit_isSome_iff hstart turns).mp (by rw [hret]; rfl)⟩
  · intro hresults
    rcases hstart : waitStart initBuf env Bus.start with ⟨_ | d, bus⟩
    · exact ⟨0, _, by rw [tofInit_eq, hstart]⟩
    · obtain ⟨turns, hcount⟩ := hresults d bus hstart
      have hsome := (tofInit_isSome_iff hstart turns).mpr hcount
      exact ⟨turns + 1, Option.isSome_iff_exists.mp hsome⟩

/-- A sensor that answers the probe and `begin`, with its application
running, and then nothing. -/
def silent : Env := fun query =>
  { ok := true
    data :=
      if query = 7 then some [0x41] else if query = 8 then some [0xC0] else none
    stack := 0
    millis := 0 }

/-- Behind the ninth query its status blocks are all zero. -/
theorem silent_statusBlock {query : Nat} (hquery : 8 ≤ query) :
    statusBlock silent query = .ofBytes (List.replicate 11 0) := by
  have h7 : ¬query + 1 = 7 := by omega
  have h8 : ¬query + 1 = 8 := by omega
  simp only [statusBlock, silent, Answer.fill, if_neg h7, if_neg h8]

/-- None of its status blocks is a result. -/
theorem silent_newResults {query : Nat} (hquery : 8 ≤ query) (tid : UInt8)
    (turns : Nat) : newResults tid (polls silent query turns) = 0 := by
  induction turns generalizing query with
  | zero => rfl
  | succ turns ih =>
      rw [polls, silent_statusBlock hquery]
      exact ih (by omega)

/-- It is found at the first attempt, and the wait begins after the nine
queries up to then. -/
theorem silent_waitStart (initBuf : List (List UInt8)) :
    ∃ d bus, waitStart initBuf silent Bus.start = (some d, bus) ∧ 8 ≤ bus.query := by
  obtain ⟨sent, hfind⟩ : ∃ sent, findSensor initBuf silent Bus.start
      = (some { Driver.new with initialized := true, calibData := calibData },
          ⟨9, sent⟩) :=
    ⟨_, rfl⟩
  simp only [waitStart, Io.bind_run, hfind, sendCommand_noCalib, Io.pure_run]
  refine ⟨_, _, rfl, Nat.le_trans ?_ (checkStatusRegister_query _ _ _)⟩
  rw [writeReg_query]
  exact Nat.le_succ 8

/-- With this sensor `tof_init` does not return, with any fuel. -/
theorem tofInit_waits_forever :
    ¬ ∃ initBuf fuel returned,
      (tofInit initBuf fuel silent Bus.start).1 = some returned := by
  rintro ⟨initBuf, fuel, returned, hret⟩
  obtain ⟨d, bus, hstart, hquery⟩ := silent_waitStart initBuf
  cases fuel with
  | zero =>
      rw [tofInit_eq, hstart] at hret
      cases hret
  | succ turns =>
      have hcount := (tofInit_isSome_iff hstart turns).mp (by rw [hret]; rfl)
      rw [silent_newResults hquery] at hcount
      exact absurd hcount (by omega)

end SitNChow.Tof
