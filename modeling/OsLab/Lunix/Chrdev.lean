import Mathlib.Data.List.Basic
import Mathlib.Algebra.Order.Ring.Nat

/-!
# Lunix character devices

`lunix-chrdev.c` and the measurement pages of `lunix-sensors.c`: the text that an open
file caches and the read that hands it out.
-/

namespace OsLab.Lunix

def eagain : Int := 11
def efault : Int := 14
def erestartsys : Int := 512

/-- `struct lunix_msr_data_struct`, whose `values[0]` only ever receives a `uint16_t`. -/
structure MsrData where
  lastUpdate : UInt32
  value : UInt16
  deriving DecidableEq, Repr

/-- `msr_data` of a sensor. -/
abbrev Sensor := Nat → MsrData

def BATT : Nat := 0
def TEMP : Nat := 1
def LIGHT : Nat := 2

/-- `lunix_sensor_init`: the pages come zeroed. -/
def lunixSensorInit : Sensor := fun _ => ⟨0, 0⟩

def lunixSensorUpdate (getSeconds : Nat) (batt temp light : UInt16) (s : Sensor) : Sensor := fun type =>
  if type = BATT then ⟨UInt32.ofNat getSeconds, batt⟩
  else if type = TEMP then ⟨UInt32.ofNat getSeconds, temp⟩
  else if type = LIGHT then ⟨UInt32.ofNat getSeconds, light⟩
  else s type

/-- The tables of `lunix-lookup.h`, with the least and the greatest of their entries. -/
structure LookupTables where
  voltage : UInt16 → Int
  temperature : UInt16 → Int
  light : UInt16 → Int
  voltage_bounds : ∀ raw, 0 ≤ voltage raw ∧ voltage raw ≤ 1251129
  temperature_bounds : ∀ raw, -272150 ≤ temperature raw ∧ temperature raw ≤ 367234
  light_bounds : ∀ raw, 0 ≤ light raw ∧ light raw ≤ 5000000

/-- The entries at 0 and 500 of each table. -/
def sampleTables : LookupTables where
  voltage raw := if raw = 0 then 0 else 2502
  temperature raw := if raw = 0 then -272150 else 24873
  light raw := if raw = 0 then 0 else 38147
  voltage_bounds raw := by split_ifs <;> omega
  temperature_bounds raw := by split_ifs <;> omega
  light_bounds raw := by split_ifs <;> omega

/-- The `switch` of `lunix_chrdev_state_update`. -/
def LookupTables.properData (tables : LookupTables) (type : Nat) (raw : UInt16) : Option Int :=
  if type = BATT then some (tables.voltage raw)
  else if type = TEMP then some (tables.temperature raw)
  else if type = LIGHT then some (tables.light raw)
  else none

def bufSz : Nat := 20

/-- `struct lunix_chrdev_state_struct` of an open file; the semaphore makes its functions atomic. -/
structure ChrdevState where
  type : Nat
  bufLim : Nat
  bufData : List Char
  bufTimestamp : UInt32

def lunixChrdevOpen (minor : Nat) : ChrdevState :=
  ⟨minor % 8, 0, List.replicate bufSz '\x00', 0⟩

/-! ### Formatting -/

/-- `%ld` -/
def ld (n : Int) : List Char :=
  if n < 0 then '-' :: Nat.toDigits 10 n.natAbs else Nat.toDigits 10 n.natAbs

/-- Returns the length of the whole text and stores what fits before the final NUL. -/
def snprintf (buf : List Char) (size : Nat) (text : List Char) : Nat × List Char :=
  let stored := text.take (size - 1) ++ ['\x00']
  (text.length, stored ++ buf.drop stored.length)

/-- `"%c%ld,%ld"` -/
def measurementText (properData : Int) : List Char :=
  let sign := if 0 ≤ properData then '+' else '-'
  let properData := if 0 ≤ properData then properData else (-1) * properData
  sign :: (ld (properData.tdiv 1000) ++ ',' :: ld (properData.tmod 1000))

/-! ### State updates -/

def lunixChrdevStateNeedsRefresh (sensor : Sensor) (state : ChrdevState) : Bool :=
  state.bufTimestamp ≠ (sensor state.type).lastUpdate

def lunixChrdevStateUpdate (tables : LookupTables) (sensor : Sensor) (state : ChrdevState) :
    Int × ChrdevState :=
  let rawTime := (sensor state.type).lastUpdate
  let rawValue := (sensor state.type).value
  if lunixChrdevStateNeedsRefresh sensor state then
    match tables.properData state.type rawValue with
    | some properData =>
      let (lim, data) := snprintf state.bufData bufSz (measurementText properData)
      (0, { state with bufLim := lim, bufData := data, bufTimestamp := rawTime })
    | none => (-eagain, state)
  else (-eagain, state)

/-- The loop of `lunix_chrdev_read`, run on what the sensor holds at each of its rounds.
The wait behind the last of them is interrupted. -/
def refresh (tables : LookupTables) (state : ChrdevState) : List Sensor → Int × ChrdevState
  | [] => (-erestartsys, state)
  | sensor :: later =>
    match lunixChrdevStateUpdate tables sensor state with
    | (ret, state) => if ret = -eagain then refresh tables state later else (0, state)

/-! ### Reads -/

/-- The user addresses of an x86-64 task end here. -/
def taskSizeMax : Nat := 2 ^ 47 - 4096

/-- Nothing counts as copied when some byte is not. -/
def copyToUser (faults : Bool) (source : List Char) (n : Nat) : Option (List Char) :=
  if faults ∨ taskSizeMax < n then none else some (source.take n)

/-- A call of `lunix_chrdev_read` with what happens around it. -/
structure ReadCall where
  cnt : Nat
  interrupted : Bool
  rounds : List Sensor
  faults : Bool
  asks : 1 ≤ cnt
  word : cnt < 2 ^ 64

structure ReadResult where
  ret : Int
  state : ChrdevState
  fPos : Nat
  copied : List Char

/-- The part that starts at the comment "End of file". -/
def copyOut (call : ReadCall) (state : ChrdevState) (fPos : Nat) : ReadResult :=
  let cnt := if state.bufLim ≤ (fPos + call.cnt) % 2 ^ 64 then (state.bufLim + 2 ^ 64 - fPos) % 2 ^ 64
    else call.cnt
  match copyToUser call.faults state.bufData cnt with
  | none => ⟨-efault, state, fPos, []⟩
  | some bytes =>
    let fPos := fPos + cnt
    ⟨cnt, state, if fPos = state.bufLim then 0 else fPos, bytes⟩

def lunixChrdevRead (tables : LookupTables) (call : ReadCall) (state : ChrdevState) (fPos : Nat) :
    ReadResult :=
  if call.interrupted then ⟨-erestartsys, state, fPos, []⟩
  else if fPos = 0 then
    match refresh tables state call.rounds with
    | (ret, state) => if ret < 0 then ⟨ret, state, fPos, []⟩ else copyOut call state fPos
  else copyOut call state fPos

/-! ### The text -/

theorem ld_digits {n : Int} (positive : 0 ≤ n) {c : Char} (member : c ∈ ld n) : c.isDigit := by
  unfold ld at member
  rw [if_neg (by omega)] at member
  exact Nat.isDigit_of_mem_toDigits (by decide) (by decide) member

theorem ld_length {n : Int} (positive : 0 ≤ n) {k : Nat} (some : 0 < k) (small : n < 10 ^ k) :
    (ld n).length ≤ k := by
  unfold ld
  rw [if_neg (by omega), Nat.length_toDigits_le_iff (by decide) some]
  have cast : ((10 ^ k : Nat) : Int) = 10 ^ k := by push_cast; rfl
  omega

theorem properData_bounds {tables : LookupTables} {type : Nat} {raw : UInt16} {n : Int}
    (read : tables.properData type raw = some n) : -272150 ≤ n ∧ n ≤ 5000000 := by
  have voltage := tables.voltage_bounds raw
  have temperature := tables.temperature_bounds raw
  have light := tables.light_bounds raw
  unfold LookupTables.properData at read
  split_ifs at read <;> obtain rfl := Option.some.inj read <;> omega

/-- The sign stands at the front of the text and nowhere else. -/
theorem measurementText_sign (n : Int) :
    ∃ sign tail, measurementText n = sign :: tail ∧ sign ∉ tail := by
  refine ⟨_, _, rfl, ?_⟩
  have positive : 0 ≤ (if 0 ≤ n then n else (-1) * n) := by split_ifs <;> omega
  generalize (if 0 ≤ n then n else (-1) * n) = m at positive ⊢
  have whole : 0 ≤ m.tdiv 1000 := Int.tdiv_nonneg positive (by decide)
  have rest : 0 ≤ m.tmod 1000 := Int.tmod_nonneg 1000 positive
  intro member
  rcases List.mem_append.mp member with digit | digit
  · have known := ld_digits whole digit
    split_ifs at known <;> revert known <;> decide
  · rcases List.mem_cons.mp digit with comma | digit
    · split_ifs at comma <;> revert comma <;> decide
    · have known := ld_digits rest digit
      split_ifs at known <;> revert known <;> decide

theorem measurementText_length {n : Int} (low : -272150 ≤ n) (high : n ≤ 5000000) :
    (measurementText n).length < bufSz := by
  have positive : 0 ≤ (if 0 ≤ n then n else (-1) * n) := by split_ifs <;> omega
  have bounded : (if 0 ≤ n then n else (-1) * n) ≤ 5000000 := by split_ifs <;> omega
  unfold measurementText
  generalize (if 0 ≤ n then n else (-1) * n) = m at positive bounded ⊢
  have whole : (ld (m.tdiv 1000)).length ≤ 4 :=
    ld_length (Int.tdiv_nonneg positive (by decide)) (by decide)
      (by rw [Int.tdiv_eq_ediv_of_nonneg positive]; omega)
  have rest : (ld (m.tmod 1000)).length ≤ 3 :=
    ld_length (Int.tmod_nonneg 1000 positive) (by decide)
      (by rw [Int.tmod_eq_emod_of_nonneg positive]; omega)
  simp only [List.length_cons, List.length_append, bufSz]
  omega

/-- A text that fits is read back from the buffer. -/
theorem snprintf_text {buf text data : List Char} {size lim : Nat} (short : text.length < size)
    (formatted : snprintf buf size text = (lim, data)) : lim = text.length ∧ data.take lim = text := by
  obtain ⟨rfl, rfl⟩ := Prod.mk.inj formatted
  refine ⟨rfl, ?_⟩
  rw [List.take_of_length_le (by omega : text.length ≤ size - 1), List.append_assoc, List.take_left]

/-- A successful update caches the text of the measurement, stamped with its update. -/
theorem stateUpdate_cached {tables : LookupTables} {sensor : Sensor} {s c : ChrdevState}
    (done : lunixChrdevStateUpdate tables sensor s = (0, c)) :
    ∃ n, tables.properData s.type (sensor s.type).value = some n ∧ c.type = s.type ∧
      c.bufLim = (measurementText n).length ∧ c.bufData.take c.bufLim = measurementText n ∧
      c.bufTimestamp = (sensor s.type).lastUpdate := by
  unfold lunixChrdevStateUpdate at done
  split_ifs at done with fresh
  · cases read : tables.properData s.type (sensor s.type).value with
    | none => simp [read, eagain] at done
    | some n =>
      have bounds := properData_bounds read
      have short := measurementText_length bounds.1 bounds.2
      obtain ⟨lim_eq, text⟩ := @snprintf_text s.bufData _ _ _ _ short rfl
      simp only [read, Prod.mk.injEq, true_and] at done
      subst done
      exact ⟨n, rfl, rfl, lim_eq, text, rfl⟩
  · simp [eagain] at done

theorem stateUpdate_succeeds_iff {tables : LookupTables} {sensor : Sensor} {s : ChrdevState} :
    (lunixChrdevStateUpdate tables sensor s).1 = 0 ↔
      s.type < 3 ∧ s.bufTimestamp ≠ (sensor s.type).lastUpdate := by
  have known : (tables.properData s.type (sensor s.type).value).isSome ↔ s.type < 3 := by
    unfold LookupTables.properData BATT TEMP LIGHT
    split_ifs <;> simp <;> omega
  unfold lunixChrdevStateUpdate lunixChrdevStateNeedsRefresh
  by_cases fresh : s.bufTimestamp = (sensor s.type).lastUpdate
  · simp [fresh, eagain]
  · cases read : tables.properData s.type (sensor s.type).value with
    | none =>
      rw [read] at known
      simp [fresh, read, eagain, ← known]
    | some n =>
      rw [read] at known
      simp [fresh, read, ← known]

theorem stateUpdate_fails {tables : LookupTables} {sensor : Sensor} {s : ChrdevState}
    (failed : (lunixChrdevStateUpdate tables sensor s).1 ≠ 0) :
    lunixChrdevStateUpdate tables sensor s = (-eagain, s) := by
  revert failed
  unfold lunixChrdevStateUpdate
  split_ifs with fresh
  · cases read : tables.properData s.type (sensor s.type).value with
    | none => simp [read]
    | some n => simp [read, snprintf]
  · simp

end OsLab.Lunix
