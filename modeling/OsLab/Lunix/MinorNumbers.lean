import OsLab.Lunix.SensorPages

/-!
# Minor numbers

Which minor numbers of the registered range give files whose reads stay inside the arrays.
-/

namespace OsLab.Lunix
open Bounds

/-- Every value of a page was written as a `uint16_t`. -/
def Narrow {cnt : Nat} (sensors : Fin cnt → SensorPages) : Prop := ∀ i type, (sensors i type).value.toNat < 65536

/-! ### Updates -/

theorem updateSensors_range {cnt : Int} {s : ProtocolState} {u : SensorUpdate}
    (member : u ∈ lunixProtocolUpdateSensors cnt s) : (u.sensor : Int) < cnt := by
  unfold lunixProtocolUpdateSensors at member
  simp only at member
  split_ifs at member with signature range
  · obtain rfl := List.mem_singleton.mp member
    have positive : 0 < (uint16FromPacket s.packet nodeOffset).toNat := range.1
    have bound := range.2
    simp only
    omega
  · cases member
  · cases member

theorem seekEndByte_range {debug : Bool} {cnt : Int} {cursor : ProtocolState × List UInt8} {u : SensorUpdate}
    (member : u ∈ (seekEndByte debug cnt cursor).2) : (u.sensor : Int) < cnt := by
  unfold seekEndByte at member
  split_ifs at member
  · generalize lunixProtocolParseState debug cursor.1 cursor.2 false = parsed at member
    obtain ⟨ret, state, rest⟩ := parsed
    simp only at member
    split_ifs at member
    · exact updateSensors_range member
    · cases member
  · cases member

theorem receivedBuf_range {debug : Bool} {cnt : Int} {s : ProtocolState} {buf : List UInt8} {u : SensorUpdate}
    (member : u ∈ (lunixProtocolReceivedBuf debug cnt s buf).2) : (u.sensor : Int) < cnt := by
  unfold lunixProtocolReceivedBuf at member
  exact seekEndByte_range member

section
variable {cnt : Nat}

theorem updateSensor_ok {seconds : Nat} {sensors : Fin cnt → SensorPages} (narrow : Narrow sensors) {u : SensorUpdate}
    (range : u.sensor < cnt) : ∃ sensors', updateSensor seconds sensors u = .ok sensors' ∧ Narrow sensors' := by
  unfold updateSensor
  rw [access_ok range]
  refine ⟨_, rfl, ?_⟩
  intro i type
  simp only
  split_ifs
  · simp only [Pages.lunixSensorUpdate, UInt16.toNat_toUInt32]
    exact UInt16.toNat_lt _
  · exact narrow i type

theorem receive_ok (debug : Bool) {d : Device cnt} (narrow : Narrow d.sensors) (arrival : Arrival) :
    ∃ d', receive debug d arrival = .ok d' ∧ Narrow d'.sensors := by
  obtain ⟨sensors, updated, kept⟩ := @foldlM_ok _ _ _ (updateSensor arrival.seconds) Narrow
    (lunixProtocolReceivedBuf debug cnt d.protocol arrival.buf).2
    (fun s inv u member => updateSensor_ok inv (by exact_mod_cast receivedBuf_range member)) d.sensors narrow
  refine ⟨⟨(lunixProtocolReceivedBuf debug cnt d.protocol arrival.buf).1, sensors⟩, ?_, kept⟩
  unfold receive
  simp only [updated]
  rfl

theorem receiveAll_ok (debug : Bool) {d : Device cnt} (narrow : Narrow d.sensors) (arrivals : List Arrival) :
    ∃ d', arrivals.foldlM (receive debug) d = .ok d' ∧ Narrow d'.sensors :=
  @foldlM_ok _ _ _ (receive debug) (fun d : Device cnt => Narrow d.sensors) arrivals
    (fun _ inv arrival _ => receive_ok debug inv arrival) d narrow

/-! ### The functions on a device inside its bounds -/

/-- What the functions without bounds see of the pages. -/
def view (pages : SensorPages) : Sensor := fun type =>
  if bound : type < nLunixMsr then ⟨(pages ⟨type, bound⟩).lastUpdate, (pages ⟨type, bound⟩).value.toUInt16⟩
  else ⟨0, 0⟩

structure Inside (d : Device cnt) (file : OpenFile) : Prop where
  sensor : file.sensor < cnt
  type : file.state.type < nLunixMsr
  narrow : Narrow d.sensors

variable {tables : LookupTables} {d : Device cnt} {file : OpenFile}

def Inside.page (inside : Inside d file) : MsrPage := d.sensors ⟨_, inside.sensor⟩ ⟨_, inside.type⟩

theorem Inside.msrData_eq (inside : Inside d file) : Pages.msrData d file = .ok inside.page := by
  unfold Pages.msrData
  rw [access_ok inside.sensor]
  exact access_ok inside.type

theorem Inside.view_page (inside : Inside d file) :
    view (d.sensors ⟨_, inside.sensor⟩) file.state.type = ⟨inside.page.lastUpdate, inside.page.value.toUInt16⟩ :=
  dif_pos inside.type

theorem Inside.needsRefresh_eq (inside : Inside d file) :
    Pages.lunixChrdevStateNeedsRefresh d file =
      .ok (lunixChrdevStateNeedsRefresh (view (d.sensors ⟨_, inside.sensor⟩)) file.state) := by
  unfold Pages.lunixChrdevStateNeedsRefresh lunixChrdevStateNeedsRefresh
  rw [inside.msrData_eq, inside.view_page]
  rfl

theorem lookup_eq {table : UInt16 → Int} {rawValue : UInt32} (narrow : rawValue.toNat < 65536) :
    Pages.lookup table rawValue = .ok (table rawValue.toUInt16) := by
  unfold Pages.lookup
  rw [access_ok narrow]
  congr 2

theorem properData_eq (tables : LookupTables) (type : Nat) {rawValue : UInt32} (narrow : rawValue.toNat < 65536) :
    Pages.properData tables type rawValue = .ok (tables.properData type rawValue.toUInt16) := by
  unfold Pages.properData LookupTables.properData
  simp only [lookup_eq narrow]
  split_ifs <;> rfl

/-- Inside the bounds the function is the one without bounds. -/
theorem Inside.stateUpdate_eq (inside : Inside d file) :
    Pages.lunixChrdevStateUpdate tables d file =
      .ok (lunixChrdevStateUpdate tables (view (d.sensors ⟨_, inside.sensor⟩)) file.state) := by
  have narrow : inside.page.value.toNat < 65536 := inside.narrow _ _
  unfold Pages.lunixChrdevStateUpdate lunixChrdevStateUpdate
  rw [inside.msrData_eq, inside.needsRefresh_eq, inside.view_page]
  simp only [bind, Except.bind]
  split_ifs
  · rw [properData_eq tables _ narrow]
    simp only
    cases tables.properData file.state.type inside.page.value.toUInt16 <;> rfl
  · rfl

theorem stateUpdate_type (tables : LookupTables) (sensor : Sensor) (s : ChrdevState) :
    (lunixChrdevStateUpdate tables sensor s).2.type = s.type := by
  by_cases failed : (lunixChrdevStateUpdate tables sensor s).1 = 0
  · obtain ⟨c, done⟩ : ∃ c, lunixChrdevStateUpdate tables sensor s = (0, c) := ⟨_, Prod.ext failed rfl⟩
    obtain ⟨n, -, same, -⟩ := stateUpdate_cached done
    rw [done]
    exact same
  · rw [stateUpdate_fails failed]

theorem Inside.stateUpdate_ok (inside : Inside d file) :
    ∃ ret state, Pages.lunixChrdevStateUpdate tables d file = .ok (ret, state) ∧ state.type = file.state.type :=
  ⟨_, _, inside.stateUpdate_eq, stateUpdate_type ..⟩

/-! ### Reads -/

variable (debug : Bool)

theorem sleep_ok (inside : Inside d file) (waits : List (List Arrival)) :
    ∃ ret state d', Pages.sleep tables debug d file waits = .ok (ret, state, d') ∧
      state.type = file.state.type ∧ Narrow d'.sensors := by
  induction waits generalizing d file with
  | nil =>
    refine ⟨-erestartsys, file.state, d, ?_, rfl, inside.narrow⟩
    unfold Pages.sleep
    rw [inside.needsRefresh_eq]
    rfl
  | cons arrivals later ih =>
    obtain ⟨d', received, narrow⟩ := receiveAll_ok debug inside.narrow arrivals
    have inside' : Inside d' file := ⟨inside.sensor, inside.type, narrow⟩
    obtain ⟨ret, state, updated, type⟩ := @Inside.stateUpdate_ok _ tables _ _ inside'
    unfold Pages.sleep
    simp only [received, inside'.needsRefresh_eq, updated, bind, Except.bind]
    split_ifs
    · obtain ⟨ret, state', d'', slept, type', narrow'⟩ :=
        ih (⟨inside.sensor, by rw [type]; exact inside.type, narrow⟩ : Inside d' { file with state := state })
      exact ⟨ret, state', d'', slept, type'.trans type, narrow'⟩
    · exact ⟨0, state, d', rfl, type, narrow⟩
    · exact ih inside'

theorem refresh_ok (inside : Inside d file) (waits : List (List Arrival)) :
    ∃ ret state d', Pages.refresh tables debug d file waits = .ok (ret, state, d') ∧
      state.type = file.state.type ∧ Narrow d'.sensors := by
  obtain ⟨ret, state, updated, type⟩ := @Inside.stateUpdate_ok _ tables _ _ inside
  unfold Pages.refresh
  simp only [updated, bind, Except.bind]
  split_ifs
  · obtain ⟨ret, state', d', slept, type', narrow⟩ := @sleep_ok _ tables _ _ debug
      (⟨inside.sensor, by rw [type]; exact inside.type, inside.narrow⟩ : Inside d { file with state := state }) waits
    exact ⟨ret, state', d', slept, type'.trans type, narrow⟩
  · exact ⟨0, state, d, rfl, type, inside.narrow⟩

theorem copyOut_state (call : ReadCall) (state : ChrdevState) (fPos : Nat) : (copyOut call state fPos).state = state := by
  unfold copyOut
  simp only
  split <;> rfl

theorem read_ok (inside : Inside d file) (fPos : Nat) (call : ReadCall) (waits : List (List Arrival)) :
    ∃ result d', Pages.lunixChrdevRead tables debug d file fPos call waits = .ok (result, d') ∧
      result.state.type = file.state.type ∧ Narrow d'.sensors := by
  obtain ⟨ret, state, d', refreshed, type, narrow⟩ := @refresh_ok _ tables _ _ debug inside waits
  unfold Pages.lunixChrdevRead
  simp only [refreshed, bind, Except.bind]
  split_ifs
  · exact ⟨_, _, rfl, rfl, inside.narrow⟩
  · exact ⟨_, _, rfl, type, narrow⟩
  · exact ⟨_, _, rfl, by rw [copyOut_state, type], narrow⟩
  · exact ⟨_, _, rfl, by rw [copyOut_state], inside.narrow⟩

theorem step_ok {s : PagesState cnt} (inside : Inside s.device s.file) (e : PagesEvent) :
    ∃ s', s.step tables debug e = .ok s' ∧ Inside s'.device s'.file := by
  cases e with
  | receive arrival =>
    obtain ⟨d', received, narrow⟩ := receive_ok debug inside.narrow arrival
    refine ⟨{ s with device := d' }, ?_, inside.sensor, inside.type, narrow⟩
    simp only [PagesState.step, received, bind, Except.bind, pure, Except.pure]
  | read call waits =>
    obtain ⟨result, d', read, type, narrow⟩ := @read_ok _ tables _ _ debug inside s.fPos call waits
    refine ⟨⟨d', { s.file with state := result.state }, result.fPos⟩, ?_, inside.sensor, ?_, narrow⟩
    · simp only [PagesState.step, read, bind, Except.bind, pure, Except.pure]
    · exact type ▸ inside.type

theorem runFile_ok {state : ProtocolState} (sensor : file.sensor < cnt) (type : file.state.type < nLunixMsr)
    (before : List Arrival) (events : List PagesEvent) :
    ∃ s, runFile tables debug (Device.init cnt state) file before events = .ok s := by
  have zeroed : Narrow (Device.init cnt state).sensors := by
    intro i type
    simp [Device.init, Pages.lunixSensorInit]
  obtain ⟨d, received, narrow⟩ := receiveAll_ok debug zeroed before
  obtain ⟨s, ran, -⟩ := @foldlM_ok _ _ _ (PagesState.step tables debug) (fun s => Inside s.device s.file) events
    (fun s inside e _ => step_ok debug inside e) ⟨d, file, 0⟩ ⟨sensor, type, narrow⟩
  refine ⟨s, ?_⟩
  unfold runFile
  rw [received]
  exact ran

/-! ### Types without a page -/

/-- A read at the start of the file. -/
def firstRead : ReadCall := ⟨1, false, [], false, by decide, by decide⟩

theorem read_faults (sensor : file.sensor < cnt) (type : nLunixMsr ≤ file.state.type) :
    Pages.lunixChrdevRead tables debug d file 0 firstRead [] = .error .msrData := by
  unfold Pages.lunixChrdevRead Pages.refresh Pages.lunixChrdevStateUpdate Pages.msrData
  rw [access_ok sensor]
  simp only [bind, Except.bind, access_fault type]
  rfl

/-- An opened device node of the registered range is read without leaving an array, whatever arrives, if and
only if the last three bits of its minor number are those of a measurement. -/
theorem minor_safe_iff {cnt : Nat} (tables : LookupTables) (debug : Bool) (state : ProtocolState) {minor : Nat}
    (registered : minor < lunixMinorCnt cnt) {nonseekable ret : Int} {file : OpenFile}
    (opened : Pages.lunixChrdevOpen nonseekable minor = (ret, some file)) :
    (file.sensor < cnt ∧ ∀ before events, ∃ s, runFile tables debug (Device.init cnt state) file before events = .ok s) ↔
      minor % 8 < nLunixMsr := by
  unfold Pages.lunixChrdevOpen at opened
  split_ifs at opened
  · cases opened
  obtain ⟨-, same⟩ := Prod.mk.inj opened
  obtain rfl := Option.some.inj same
  have sensor : minor >>> 3 < cnt := by
    rw [lunixMinorCnt, Nat.shiftLeft_eq] at registered
    rw [Nat.shiftRight_eq_div_pow]
    omega
  constructor
  · rintro ⟨-, safe⟩
    by_contra outside
    obtain ⟨s, ran⟩ := safe [] [.read firstRead []]
    have fault := @read_faults cnt tables (Device.init cnt state) ⟨minor >>> 3, lunixChrdevOpen minor⟩ debug sensor
      (Nat.not_lt.mp outside)
    unfold runFile at ran
    simp only [List.foldlM_nil, List.foldlM_cons, pure_bind, PagesState.step, fault] at ran
    cases ran
  · intro type
    exact ⟨sensor, runFile_ok debug sensor type⟩

theorem minor_safe_iff_light :
    (2 < 16 ∧ ∀ before events, ∃ s, runFile sampleTables false (Device.init 16 zeroedState)
      ⟨2, lunixChrdevOpen 18⟩ before events = .ok s) ↔ 18 % 8 < nLunixMsr :=
  @minor_safe_iff 16 sampleTables false zeroedState 18 (by decide) 0 0 ⟨2, lunixChrdevOpen 18⟩ rfl

/-- The minor number 3 is registered, and a read of it takes `msr_data[3]`. -/
theorem minor_three_faults :
    ¬ ∀ (cnt : Nat), 1 ≤ cnt → ∀ (tables : LookupTables) (debug : Bool) (state : ProtocolState) (minor : Nat),
      minor < lunixMinorCnt cnt → ∀ (nonseekable ret : Int) (file : OpenFile),
      Pages.lunixChrdevOpen nonseekable minor = (ret, some file) →
      file.sensor < cnt ∧ ∀ before events, ∃ s, runFile tables debug (Device.init cnt state) file before events = .ok s := by
  intro safe
  obtain ⟨-, runs⟩ := safe 16 (by decide) sampleTables false zeroedState 3 (by decide) 0 0 ⟨0, lunixChrdevOpen 3⟩ rfl
  obtain ⟨s, ran⟩ := runs [] [.read firstRead []]
  cases ran

end

end OsLab.Lunix
