import OsLab.Foundation.Bounds
import OsLab.Lunix.Chrdev
import OsLab.Lunix.Protocol

/-!
# Sensor pages and device nodes

The arrays of `lunix-chrdev.c` and `lunix-sensors.c` with their bounds: `lunix_sensors`, the pages
`msr_data` of a sensor and the lookup tables. An access out of them is a fault.
-/

namespace OsLab.Lunix
open Bounds

def nLunixMsr : Nat := 3
def lunixMsrMagic : UInt32 := 0xF00DF00D

inductive Fault where
  | sensors | msrData | lookup
  deriving DecidableEq, Repr

/-- `struct lunix_msr_data_struct` with its first value. -/
structure MsrPage where
  magic : UInt32
  lastUpdate : UInt32
  value : UInt32

abbrev SensorPages := Fin nLunixMsr → MsrPage

namespace Pages

def lunixSensorInit : SensorPages := fun _ => ⟨lunixMsrMagic, 0, 0⟩

def lunixSensorUpdate (getSeconds : Nat) (batt temp light : UInt16) (_ : SensorPages) : SensorPages := fun type =>
  let value := if type.1 = BATT then batt else if type.1 = TEMP then temp else light
  ⟨lunixMsrMagic, UInt32.ofNat getSeconds, value.toUInt32⟩

end Pages

/-- `lunix_protocol_state` and `lunix_sensors`. -/
structure Device (cnt : Nat) where
  protocol : ProtocolState
  sensors : Fin cnt → SensorPages

def Device.init (cnt : Nat) (state : ProtocolState) : Device cnt :=
  ⟨lunixProtocolInit state, fun _ => Pages.lunixSensorInit⟩

structure Arrival where
  seconds : Nat
  buf : List UInt8

section
variable {cnt : Nat}

def updateSensor (seconds : Nat) (sensors : Fin cnt → SensorPages) (u : SensorUpdate) :
    Except Fault (Fin cnt → SensorPages) := do
  let pages ← access Fault.sensors sensors u.sensor
  pure fun i => if i.1 = u.sensor then Pages.lunixSensorUpdate seconds u.batt u.temp u.light pages else sensors i

def receive (debug : Bool) (d : Device cnt) (arrival : Arrival) : Except Fault (Device cnt) := do
  let (protocol, updates) := lunixProtocolReceivedBuf debug cnt d.protocol arrival.buf
  let sensors ← updates.foldlM (updateSensor arrival.seconds) d.sensors
  pure ⟨protocol, sensors⟩

end

def lunixMinorCnt (lunixSensorCnt : Nat) : Nat := lunixSensorCnt <<< 3

/-- `struct lunix_chrdev_state_struct` with the index of its sensor. -/
structure OpenFile where
  sensor : Nat
  state : ChrdevState

namespace Pages

/-- `nonseekable` is what `nonseekable_open` returns. -/
def lunixChrdevOpen (nonseekable : Int) (minor : Nat) : Int × Option OpenFile :=
  if nonseekable < 0 then (nonseekable, none)
  else (nonseekable, some ⟨minor >>> 3, Lunix.lunixChrdevOpen minor⟩)

section
variable {cnt : Nat} (tables : LookupTables) (d : Device cnt) (file : OpenFile)

def msrData : Except Fault MsrPage := do
  let pages ← access Fault.sensors d.sensors file.sensor
  access Fault.msrData pages file.state.type

def lunixChrdevStateNeedsRefresh : Except Fault Bool := do
  let page ← msrData d file
  pure (file.state.bufTimestamp ≠ page.lastUpdate)

/-- An entry of a table, which has 65536 of them. -/
def lookup (table : UInt16 → Int) (rawValue : UInt32) : Except Fault Int :=
  access Fault.lookup (fun i : Fin 65536 => table (UInt16.ofNat i)) rawValue.toNat

def properData (type : Nat) (rawValue : UInt32) : Except Fault (Option Int) :=
  if type = BATT then some <$> lookup tables.voltage rawValue
  else if type = TEMP then some <$> lookup tables.temperature rawValue
  else if type = LIGHT then some <$> lookup tables.light rawValue
  else pure none

def lunixChrdevStateUpdate : Except Fault (Int × ChrdevState) := do
  let page ← msrData d file
  if ← lunixChrdevStateNeedsRefresh d file then
    match ← properData tables file.state.type page.value with
    | some properData =>
      let (lim, data) := snprintf file.state.bufData bufSz (measurementText properData)
      pure (0, { file.state with bufLim := lim, bufData := data, bufTimestamp := page.lastUpdate })
    | none => pure (-eagain, file.state)
  else pure (-eagain, file.state)

end

/-- The loop of `lunix_chrdev_read` from a wait on: what arrives before each wake-up, on which the
condition of the wait is evaluated. A signal ends the last wait. -/
def sleep {cnt : Nat} (tables : LookupTables) (debug : Bool) (d : Device cnt) (file : OpenFile) :
    List (List Arrival) → Except Fault (Int × ChrdevState × Device cnt)
  | [] => do
    let _ ← lunixChrdevStateNeedsRefresh d file
    pure (-erestartsys, file.state, d)
  | arrivals :: later => do
    let d ← arrivals.foldlM (receive debug) d
    if ← lunixChrdevStateNeedsRefresh d file then
      let (ret, state) ← lunixChrdevStateUpdate tables d file
      if ret = -eagain then sleep tables debug d { file with state := state } later
      else pure (0, state, d)
    else sleep tables debug d file later

def refresh {cnt : Nat} (tables : LookupTables) (debug : Bool) (d : Device cnt) (file : OpenFile)
    (waits : List (List Arrival)) : Except Fault (Int × ChrdevState × Device cnt) := do
  let (ret, state) ← lunixChrdevStateUpdate tables d file
  if ret = -eagain then sleep tables debug d { file with state := state } waits
  else pure (0, state, d)

/-- `call.rounds` is not looked at: `waits` has what happens meanwhile. -/
def lunixChrdevRead {cnt : Nat} (tables : LookupTables) (debug : Bool) (d : Device cnt) (file : OpenFile)
    (fPos : Nat) (call : ReadCall) (waits : List (List Arrival)) : Except Fault (ReadResult × Device cnt) := do
  if call.interrupted then pure (⟨-erestartsys, file.state, fPos, []⟩, d)
  else if fPos = 0 then
    let (ret, state, d) ← refresh tables debug d file waits
    if ret < 0 then pure (⟨ret, state, fPos, []⟩, d) else pure (copyOut call state fPos, d)
  else pure (copyOut call file.state fPos, d)

end Pages

/-! ### Runs -/

inductive PagesEvent where
  | receive (arrival : Arrival)
  | read (call : ReadCall) (waits : List (List Arrival))

structure PagesState (cnt : Nat) where
  device : Device cnt
  file : OpenFile
  fPos : Nat

def PagesState.step {cnt : Nat} (tables : LookupTables) (debug : Bool) (s : PagesState cnt) :
    PagesEvent → Except Fault (PagesState cnt)
  | .receive arrival => do
    let d ← receive debug s.device arrival
    pure { s with device := d }
  | .read call waits => do
    let (result, d) ← Pages.lunixChrdevRead tables debug s.device s.file s.fPos call waits
    pure ⟨d, { s.file with state := result.state }, result.fPos⟩

def runFile {cnt : Nat} (tables : LookupTables) (debug : Bool) (d : Device cnt) (file : OpenFile)
    (before : List Arrival) (events : List PagesEvent) : Except Fault (PagesState cnt) := do
  let d ← before.foldlM (receive debug) d
  events.foldlM (PagesState.step tables debug) ⟨d, file, 0⟩

end OsLab.Lunix
