/-
The driver of the TMF8701 (DFRobot_TMF8701_espidf.cpp), as far as
`tof_init` and the reading of results use it.

# The bus

The driver sees the I2C bus, the clock and the allocator through queries,
each answered by the environment as it likes (`Env`). A read that fails
leaves its buffer as it was, or with whatever has arrived. `writeReg`
looks at no outcome; what it sends is recorded. Delays take no time here.

# Waits

The bounded waits are `for (uint8_t t = 0; t < timeout; t += 5)`, in which
`t` does not wrap; the time-out of 1000 in `checkStatusRegister` is 232
as a `uint8_t`.
-/
import Mathlib.Data.Rat.Defs
import Mathlib.Data.Rat.Floor

namespace SitNChow.Tof

-- ============================================================ the outside

/-- What the outside answers to a query: whether a probe or an allocation
succeeds, what a read has put into its buffer (nothing, or its first
bytes), what an uninitialised byte holds, and `millis()`. -/
structure Answer where
  ok : Bool
  data : Option (List UInt8)
  stack : UInt8
  millis : UInt32

/-- The answers, query by query. -/
abbrev Env := Nat → Answer

/-- The next query, and the register writes sent so far. -/
structure Bus where
  query : Nat
  sent : List (UInt8 × List UInt8)

/-- Before the first query. -/
def Bus.start : Bus := ⟨0, []⟩

/-- A computation with access to the bus. -/
abbrev Io := ReaderT Env (StateM Bus)

/-- The next answer. -/
def ask : Io Answer := fun env bus =>
  (env bus.query, { bus with query := bus.query + 1 })

/-- A buffer after a read into it. -/
def Answer.fill (a : Answer) (buf : List UInt8) : List UInt8 :=
  match a.data with
  | none => buf
  | some data => (data ++ buf.drop data.length).take buf.length

/-- `readReg`: the buffer afterwards. -/
def readReg (_reg : UInt8) (buf : List UInt8) : Io (List UInt8) := do
  return (← ask).fill buf

/-- `writeReg`, which leaves out what does not fit its buffer. -/
def writeReg (reg : UInt8) (data : List UInt8) : Io Unit := fun _ bus =>
  if data.length = 0 ∨ data.length + 1 > 32 then ((), bus)
  else ((), { bus with sent := bus.sent ++ [(reg, data)] })

/-- `readReg` into one byte. -/
def readByte (reg init : UInt8) : Io UInt8 := do
  pure ((← readReg reg [init]).headD init)

-- ============================================================ status waits

/-- `getCPUState`; its byte is not initialised. -/
def getCPUState : Io UInt8 := do readByte 0xE0 (← ask).stack

/-- `getAppId`. -/
def getAppId : Io UInt8 := readByte 0x00 0

/-- `getRegContents`. -/
def getRegContents : Io UInt8 := readByte 0x1E 0

/-- `isCpuReady`. -/
def isCpuReady : Io Bool := do return (← getCPUState) == 0x41

/-- `isApp0`. -/
def isApp0 : Io Bool := do return (← getAppId) == 0xC0

/-- `isBootloader`. -/
def isBootloader : Io Bool := do return (← getAppId) == 0x80

/-- At most so many turns of a wait. -/
def waitTurns (check : Io Bool) : Nat → Io Bool
  | 0 => pure false
  | turns + 1 => do if ← check then pure true else waitTurns check turns

/-- `for (uint8_t t = 0; t < waitForTimeOutMs; t += 5)`. -/
def waitFor (waitForTimeOutMs : UInt8) (check : Io Bool) : Io Bool :=
  waitTurns check ((waitForTimeOutMs.toNat + 4) / 5)

/-- `waitForApplication`. -/
def waitForApplication : Io Bool := waitFor 100 isApp0

/-- `waitForBootloader`. -/
def waitForBootloader : Io Bool := waitFor 100 isBootloader

/-- `waitForCpuReady`. -/
def waitForCpuReady : Io Bool := waitFor 100 isCpuReady

/-- `checkStatusRegister`. -/
def checkStatusRegister (status : UInt8) : Io Bool :=
  waitFor (UInt8.ofNat 1000) do return (← getRegContents) == status

/-- `loadApplication`. -/
def loadApplication : Io Bool := do
  writeReg 0x02 [0xC0]
  waitForApplication

/-- `loadBootloader`. -/
def loadBootloader : Io Bool := do
  writeReg 0x02 [0x80]
  waitForBootloader

/-- `isI2CAddress`: the write and the read phase. -/
def isI2CAddress : Io Bool := do
  if (← ask).ok then return (← ask).ok else return false

-- ============================================================ the RAM patch

/-- `calChecksum`. -/
def calChecksum (data : List UInt8) : UInt8 := data.foldl (· + ·) 0 ^^^ 0xFF

/-- `readStatusACK`, which reads and always agrees. -/
def readStatusACK : Io Bool := do
  let _ ← readReg 0x08 [0, 0, 0]
  return true

/-- The blocks of the patch, each with its length and checksum. -/
def sendBlocks : List (List UInt8) → Io Bool
  | [] => pure true
  | block :: blocks => do
      let body := [0x41, UInt8.ofNat block.length] ++ block
      writeReg 0x08 (body ++ [calChecksum body])
      if ← readStatusACK then sendBlocks blocks else return false

/-- `downloadRamPatch`, with the blocks of `DFRobot_TMF8701_initBuf`. -/
def downloadRamPatch (initBuf : List (List UInt8)) : Io Bool := do
  let _ ← getAppId
  let inBootloader ←
    if (← getAppId) != 0x80 then do
      let _ ← getAppId
      loadBootloader
    else pure true
  if inBootloader then
    writeReg 0x08 [0x14, 0x01, 0x29]
    if ← readStatusACK then
      writeReg 0x08 [0x43, 0x02, 0x00, 0x00]
      if ← sendBlocks initBuf then
        writeReg 0x08 [0x11, 0x00]
        waitForCpuReady
      else return false
    else return false
  else return false

-- ============================================================== the driver

/-- `sResult_t`. -/
structure SResult where
  status : UInt8
  regContents : UInt8
  tid : UInt8
  resultNumber : UInt8
  resultInfo : UInt8
  disL : UInt8
  disH : UInt8
  sysclock0 : UInt8
  sysclock1 : UInt8
  sysclock2 : UInt8
  sysclock3 : UInt8
deriving DecidableEq

/-- The result in a buffer of its size. -/
def SResult.ofBytes (bytes : List UInt8) : SResult :=
  let at_ (i : Nat) : UInt8 := bytes.getD i 0
  ⟨at_ 0, at_ 1, at_ 2, at_ 3, at_ 4, at_ 5, at_ 6, at_ 7, at_ 8, at_ 9, at_ 10⟩

/-- `sysT`. -/
def SResult.sysT (r : SResult) : UInt32 :=
  r.sysclock3.toUInt32 <<< 24 ||| r.sysclock2.toUInt32 <<< 16
    ||| r.sysclock1.toUInt32 <<< 8 ||| r.sysclock0.toUInt32

/-- `eCalibModeConfig_t`. -/
inductive CalibMode where
  | noCalib
  | calib
  | calibAndAlgoState

/-- `eDistaceMode_t`. -/
inductive DistanceMode where
  | proximity
  | distance
  | combine

/-- `DFRobot_TMF8701`, without its pins and its address, which stay as
they are. -/
structure Driver where
  initialized : Bool
  count : UInt8
  timestamp : Rat
  measureCmdFlag : Bool
  hostTime : List UInt32
  moudleTime : List UInt32
  result : SResult
  measureCmdSet : List UInt8
  calibData : List UInt8
  algoStateData : List UInt8

/-- The constructor. -/
def Driver.new : Driver where
  initialized := false
  count := 0
  timestamp := 0
  measureCmdFlag := false
  hostTime := List.replicate 5 0
  moudleTime := List.replicate 5 0
  result := .ofBytes []
  measureCmdSet := [0x03, 0x23, 0x00, 0x00, 0x00, 0x64, 0xFF, 0xFF, 0x02]
  calibData := [0x41, 0x57, 0x01, 0xFD, 0x04, 0x00, 0x00, 0x00, 0x00, 0x00,
    0x00, 0x00, 0x00, 0x04]
  algoStateData := [0xB1, 0xA9, 0x02, 0x00, 0x00, 0x00, 0x00, 0x00, 0x00, 0x00,
    0x00]

/-- `modifyCmdSet`. -/
def Driver.modifyCmdSet (index : Nat) (bit : UInt8) (val : Bool) (d : Driver) :
    Driver :=
  if index ≥ d.measureCmdSet.length ∨ bit > 7 then d
  else
    { d with measureCmdSet := d.measureCmdSet.modify index fun b =>
        if val then b ||| 1 <<< bit else b &&& ~~~(1 <<< bit) }

section

variable (index : Nat) (bit : UInt8) (val : Bool) (d : Driver)

@[simp] theorem modifyCmdSet_initialized :
    (d.modifyCmdSet index bit val).initialized = d.initialized := by
  unfold Driver.modifyCmdSet
  split <;> rfl

@[simp] theorem modifyCmdSet_measureCmdFlag :
    (d.modifyCmdSet index bit val).measureCmdFlag = d.measureCmdFlag := by
  unfold Driver.modifyCmdSet
  split <;> rfl

end

/-- `CMDSET_INDEX_CMD7` and its bits. -/
def cmd7 : Nat := 0
def bitCalib : UInt8 := 0
def bitAlgo : UInt8 := 1

/-- `CMDSET_INDEX_CMD6` and its bits. -/
def cmd6 : Nat := 1
def bitProximity : UInt8 := 0
def bitDistance : UInt8 := 1
def bitInt : UInt8 := 4
def bitCombine : UInt8 := 5

/-- The interrupt pin is in use. -/
def Driver.usesInt (d : Driver) : Bool :=
  d.measureCmdSet.getD cmd6 0 &&& 1 <<< bitInt != 0

/-- `sleep`. -/
def Driver.sleep (d : Driver) : Io Driver := do
  let regValue ← readByte 0xE0 (← ask).stack
  writeReg 0xE0 [regValue ||| 0x80]
  return { d with measureCmdFlag := false, count := 0 }

/-- `begin` from the wait for the CPU on. -/
def startApp (initBuf : List (List UInt8)) : Io Bool := do
  if ← waitForCpuReady then
    if (← getAppId) == 0x80 then
      if ← downloadRamPatch initBuf then
        let loaded ←
          if (← getAppId) != 0xC0 then do
            if ← loadApplication then
              if ← waitForApplication then
                let _ ← getAppId
                pure true
              else pure false
            else pure false
          else pure true
        if loaded then isApp0 else return false
      else return false
    else return true
  else return false

/-- `begin`, and whether it returns 0. -/
def Driver.beginSensor (initBuf : List (List UInt8)) (d : Driver) :
    Io (Bool × Driver) := do
  let d := { d with initialized := false }
  if ← isI2CAddress then
    let d ← d.sleep
    writeReg 0xE0 [1]
    if ← startApp initBuf then return (true, { d with initialized := true })
    else return (false, d)
  else return (false, d)

/-- `setCalibrationData`. -/
def Driver.setCalibrationData (data : List UInt8) (d : Driver) :
    Bool × Driver :=
  if data.length ≠ 14 then (false, d) else (true, { d with calibData := data })

-- ================================================================= results

/-- The correction after a fifth result: the host time over the module
time of the window, when both have moved on and it is near one. -/
def correction (hostTime moudleTime : List UInt32) (timestamp : Rat) : Rat :=
  if moudleTime.getD 4 0 > moudleTime.getD 0 0
      ∧ hostTime.getD 4 0 ≥ hostTime.getD 0 0 then
    let t1 : Rat := (hostTime.getD 4 0 - hostTime.getD 0 0).toNat * 10
    let t2 : Rat := (moudleTime.getD 4 0 - moudleTime.getD 0 0).toNat * (2 / 10) / 100
    if t1 / t2 ≥ 7 / 10 ∧ t1 / t2 ≤ 13 / 10 then t1 / t2 else timestamp
  else timestamp

/-- `_window[i] = _window[i + 1]` for the first four entries. -/
def shift (window : List UInt32) : List UInt32 := window.tail ++ window.drop 4

/-- `isDataReady` takes a new result: the windows of host and module times
fill up to four; from then on the fifth entry is written, the correction
taken, and the windows moved by one. -/
def Driver.accept (t : UInt32) (result : SResult) (d : Driver) : Driver :=
  if d.count < 4 then
    { d with
      result := result
      hostTime := d.hostTime.set d.count.toNat t
      moudleTime := d.moudleTime.set d.count.toNat result.sysT
      count := d.count + 1 }
  else if d.count = 4 then
    let host := d.hostTime.set d.count.toNat t
    let moudle := d.moudleTime.set d.count.toNat result.sysT
    { d with
      result := result
      timestamp := correction host moudle d.timestamp
      hostTime := shift host
      moudleTime := shift moudle }
  else { d with result := result, count := 0 }

section

variable (t : UInt32) (result : SResult) (d : Driver)

/-- The status block is kept as the last result. -/
@[simp] theorem accept_result : (d.accept t result).result = result := by
  unfold Driver.accept
  split
  · rfl
  · split <;> rfl

@[simp] theorem accept_usesInt : (d.accept t result).usesInt = d.usesInt := by
  unfold Driver.accept
  split
  · rfl
  · split <;> rfl

/-- Each result counts, up to the fourth. -/
theorem accept_count {d : Driver} (hcount : d.count < 4) :
    (d.accept t result).count = d.count + 1 := by
  simp only [Driver.accept, if_pos hcount]

end

/-- The status block read is a new result. -/
def Driver.isNew (result : SResult) (d : Driver) : Bool :=
  result.regContents == 0x55 && result.tid != d.result.tid

/-- `isDataReady`. -/
def Driver.isDataReady (d : Driver) : Io (Bool × Driver) := do
  let t := (← ask).millis
  let result := SResult.ofBytes (← readReg 0x1D (List.replicate 11 0))
  if d.isNew result then return (true, d.accept t result)
  else if d.usesInt then
    let val ← readByte 0xE1 0
    if val &&& 0x01 != 0 then writeReg 0xE1 [val ||| 0x01]
    return (false, d)
  else return (false, d)

/-- `getDistance_mm`; the cast of the corrected distance cuts off its
fraction. -/
def Driver.getDistanceMm (d : Driver) : Io UInt16 := do
  let raw := d.result.disH.toUInt16 <<< 8 ||| d.result.disL.toUInt16
  let rslt := UInt16.ofNat (raw.toNat * d.timestamp).floor.toNat
  if d.usesInt then
    let val ← readByte 0xE1 0
    writeReg 0xE1 [val ||| 0x01]
    return rslt
  else return rslt

-- ========================================================= the measurement

/-- `setCaibrationMode` up to the wait for the first results. -/
def Driver.sendCommand (mode : CalibMode) (d : Driver) : Io Driver := do
  let d ←
    match mode with
    | .calib => do
        let d := (d.modifyCmdSet cmd7 bitCalib true).modifyCmdSet cmd7 bitAlgo false
        writeReg 0x10 [0x0B]
        writeReg 0x20 d.calibData
        pure d
    | .calibAndAlgoState => do
        let d := (d.modifyCmdSet cmd7 bitCalib true).modifyCmdSet cmd7 bitAlgo true
        writeReg 0x10 [0x0B]
        writeReg 0x20 d.calibData
        writeReg 0x2E d.algoStateData
        pure d
    | .noCalib =>
        pure ((d.modifyCmdSet cmd7 bitCalib false).modifyCmdSet cmd7 bitAlgo false)
  writeReg 0x08 d.measureCmdSet
  let _ ← checkStatusRegister 0x55
  return d

/-- `while (_count < 4)` in `setCaibrationMode`, for at most so many tests
of its condition; nothing while it goes on. -/
def waitResults : Nat → Driver → Io (Option Driver)
  | 0, _ => pure none
  | fuel + 1, d =>
      if d.count < 4 then do
        let (ready, d) ← d.isDataReady
        if ready then
          let _ ← d.getDistanceMm
          waitResults fuel d
        else waitResults fuel d
      else pure (some d)

/-- `setCaibrationMode`; nothing while it waits. -/
def Driver.setCaibrationMode (fuel : Nat) (mode : CalibMode) (d : Driver) :
    Io (Option (Bool × Driver)) := do
  if !d.initialized || d.measureCmdFlag then return some (false, d)
  else
    let d ← d.sendCommand mode
    let r ← waitResults fuel d
    return r.map fun d => (true, { d with measureCmdFlag := true })

/-- `startMeasurement` sets the distance mode. -/
def Driver.setDistanceMode (disMode : DistanceMode) (d : Driver) : Driver :=
  match disMode with
  | .proximity => ((d.modifyCmdSet cmd6 bitProximity true).modifyCmdSet cmd6
      bitDistance false).modifyCmdSet cmd6 bitCombine false
  | .distance => ((d.modifyCmdSet cmd6 bitProximity false).modifyCmdSet cmd6
      bitDistance true).modifyCmdSet cmd6 bitCombine false
  | .combine => ((d.modifyCmdSet cmd6 bitProximity true).modifyCmdSet cmd6
      bitDistance true).modifyCmdSet cmd6 bitCombine true

/-- `startMeasurement`; nothing while it waits. -/
def Driver.startMeasurement (fuel : Nat) (mode : CalibMode)
    (disMode : DistanceMode) (d : Driver) : Io (Option (Bool × Driver)) :=
  (d.setDistanceMode disMode).setCaibrationMode fuel mode

end SitNChow.Tof
