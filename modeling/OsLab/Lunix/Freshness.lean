import OsLab.Foundation.Runs
import OsLab.Lunix.Chrdev

/-!
# Freshness of the cached measurements

An open file tells updates of its sensor apart by the second of the clock in which they
were made, as 32 bits. It misses an update made in the second of the one it has cached.
-/

namespace OsLab.Lunix
open Runs

/-- A call of `lunix_sensor_update` and the clock it reads. -/
structure Measurement where
  seconds : Nat
  batt : UInt16
  temp : UInt16
  light : UInt16

def Measurement.raw (m : Measurement) (type : Nat) : UInt16 :=
  if type = BATT then m.batt else if type = TEMP then m.temp else m.light

/-- The stamp of no measurement is that of the zeroed page. -/
def stamp (m : Option Measurement) : UInt32 :=
  match m with
  | none => 0
  | some m => UInt32.ofNat m.seconds

inductive SensorEvent where
  | updated (m : Measurement)
  | opened (file minor : Nat)
  | stateUpdate (file : Nat)

/-- A sensor and its open files. `latest` is the last update, `cached file` the last one before
the file's last successful refresh; `behind file` holds when an update came after that refresh. -/
structure SensorRun where
  sensor : Sensor
  files : Nat → ChrdevState
  latest : Option Measurement
  cached : Nat → Option Measurement
  behind : Nat → Bool

namespace SensorRun

def start : SensorRun :=
  ⟨lunixSensorInit, fun _ => lunixChrdevOpen 0, none, fun _ => none, fun _ => false⟩

def step (tables : LookupTables) (r : SensorRun) : SensorEvent → SensorRun
  | .updated m =>
    { r with
      sensor := lunixSensorUpdate m.seconds m.batt m.temp m.light r.sensor
      latest := some m
      behind := fun _ => true }
  | .opened file minor =>
    { r with
      files := Function.update r.files file (lunixChrdevOpen minor)
      cached := Function.update r.cached file none
      behind := Function.update r.behind file r.latest.isSome }
  | .stateUpdate file =>
    match lunixChrdevStateUpdate tables r.sensor (r.files file) with
    | (ret, state) =>
      if ret = 0 then
        { r with
          files := Function.update r.files file state
          cached := Function.update r.cached file r.latest
          behind := Function.update r.behind file false }
      else { r with files := Function.update r.files file state }

def after (tables : LookupTables) (events : List SensorEvent) : SensorRun := events.foldl (step tables) start

/-- The next `lunix_chrdev_state_update` of the file returns 0 and caches the latest update. -/
def SeesLatest (tables : LookupTables) (r : SensorRun) (file : Nat) : Prop :=
  ∃ m n c, r.latest = some m ∧ lunixChrdevStateUpdate tables r.sensor (r.files file) = (0, c) ∧
    tables.properData (r.files file).type (m.raw (r.files file).type) = some n ∧
    c.bufData.take c.bufLim = measurementText n ∧ c.bufTimestamp = stamp r.latest

def NoUpdateLost (tables : LookupTables) (events : List SensorEvent) : Prop :=
  ∀ before later, events = before ++ later → ∀ file,
    (after tables before).behind file = true → SeesLatest tables (after tables before) file

/-- The file is one of the three measurements', and the clock second of the latest update, as 32
bits, is not that of the update the file has cached (zero when it has cached none). -/
def Distinguished (r : SensorRun) (file : Nat) : Prop :=
  (r.files file).type < 3 ∧ stamp r.latest ≠ stamp (r.cached file)

def UpdatesDistinguished (tables : LookupTables) (events : List SensorEvent) : Prop :=
  ∀ before later, events = before ++ later → ∀ file,
    (after tables before).behind file = true → Distinguished (after tables before) file

/-! ### What the pages and the stamps hold -/

/-- The pages hold the latest update, and each file the stamp of the update it has cached. -/
structure Tracks (r : SensorRun) : Prop where
  page : ∀ type, type < 3 → (r.sensor type).lastUpdate = stamp r.latest ∧
    ∀ m, r.latest = some m → (r.sensor type).value = m.raw type
  stamps : ∀ file, (r.files file).bufTimestamp = stamp (r.cached file)
  updated : ∀ file, r.behind file = true → r.latest.isSome

theorem tracks_start : Tracks start where
  page _ _ := ⟨rfl, fun _ latest => nomatch latest⟩
  stamps _ := rfl
  updated _ behind := nomatch behind

theorem tracks_step {tables : LookupTables} (r : SensorRun) (e : SensorEvent) (tracks : Tracks r) :
    Tracks (step tables r e) := by
  cases e with
  | updated m =>
    refine ⟨fun type known => ?_, tracks.stamps, fun _ _ => rfl⟩
    have types : type = BATT ∨ type = TEMP ∨ type = LIGHT := by unfold BATT TEMP LIGHT; omega
    rcases types with rfl | rfl | rfl
    all_goals
      refine ⟨rfl, fun m' latest => ?_⟩
      obtain rfl := Option.some.inj latest
      rfl
  | opened file minor =>
    refine ⟨tracks.page, fun other => ?_, fun other behind => ?_⟩
    · by_cases same : other = file
      · subst same
        simp [step, lunixChrdevOpen, stamp]
      · simpa [step, same] using tracks.stamps other
    · by_cases same : other = file
      · subst same
        simpa [step] using behind
      · exact tracks.updated other (by simpa [step, same] using behind)
  | stateUpdate file =>
    by_cases done : (lunixChrdevStateUpdate tables r.sensor (r.files file)).1 = 0
    · obtain ⟨c, run⟩ : ∃ c, lunixChrdevStateUpdate tables r.sensor (r.files file) = (0, c) :=
        ⟨_, Prod.ext done rfl⟩
      obtain ⟨n, -, -, -, -, time⟩ := stateUpdate_cached run
      have known := (stateUpdate_succeeds_iff.mp done).1
      simp only [step, run, if_true]
      refine ⟨tracks.page, fun other => ?_, fun other behind => ?_⟩
      · by_cases same : other = file
        · subst same
          simpa [time] using (tracks.page _ known).1
        · simpa [same] using tracks.stamps other
      · by_cases same : other = file
        · subst same
          simp at behind
        · exact tracks.updated other (by simpa [same] using behind)
    · simp only [step, stateUpdate_fails done, eagain, show (-11 : Int) ≠ 0 by decide, if_false,
        Function.update_eq_self]
      exact tracks

theorem tracks_after (tables : LookupTables) (events : List SensorEvent) : Tracks (after tables events) :=
  foldl_invariant tracks_step tracks_start events

/-- The stamps decide whether the next refresh sees the latest update. -/
theorem seesLatest_iff {tables : LookupTables} {r : SensorRun} (tracks : Tracks r) {file : Nat}
    (behind : r.behind file = true) : SeesLatest tables r file ↔ Distinguished r file := by
  have stamps := tracks.stamps file
  constructor
  · rintro ⟨m, n, c, -, run, -⟩
    obtain ⟨known, fresh⟩ := stateUpdate_succeeds_iff.mp (congrArg Prod.fst run)
    rw [stamps, (tracks.page _ known).1] at fresh
    exact ⟨known, fresh.symm⟩
  · rintro ⟨known, fresh⟩
    obtain ⟨time, raw⟩ := tracks.page _ known
    have done : (lunixChrdevStateUpdate tables r.sensor (r.files file)).1 = 0 :=
      stateUpdate_succeeds_iff.mpr ⟨known, by rw [stamps, time]; exact fresh.symm⟩
    obtain ⟨m, latest⟩ := Option.isSome_iff_exists.mp (tracks.updated file behind)
    obtain ⟨n, read, -, -, text, caught⟩ := stateUpdate_cached (Prod.ext done rfl)
    refine ⟨m, n, _, latest, Prod.ext done rfl, raw m latest ▸ read, text, caught.trans time⟩

/-- A run loses no update exactly when at each of its points every file that is behind can
tell the latest update from the one it has cached. -/
theorem no_update_lost_iff (tables : LookupTables) (events : List SensorEvent) :
    NoUpdateLost tables events ↔ UpdatesDistinguished tables events := by
  constructor
  · intro seen before later cut file behind
    exact (seesLatest_iff (tracks_after tables before) behind).mp (seen before later cut file behind)
  · intro distinguished before later cut file behind
    exact (seesLatest_iff (tracks_after tables before) behind).mpr (distinguished before later cut file behind)

/-- Two updates in one second, with a refresh between them. -/
def sameSecond : List SensorEvent :=
  [.opened 0 TEMP, .updated ⟨1000, 0, 0, 0⟩, .stateUpdate 0, .updated ⟨1000, 0, 500, 0⟩]

def SensorEvent.clock : SensorEvent → Option Nat
  | .updated m => some m.seconds
  | _ => none

theorem same_second_lost :
    ¬ ∀ tables events, (events.filterMap SensorEvent.clock).Pairwise (· ≤ ·) → NoUpdateLost tables events := by
  intro none_lost
  have behind : (after sampleTables sameSecond).behind 0 = true := rfl
  have seen := none_lost sampleTables sameSecond (by decide) sameSecond [] (by simp) 0 behind
  exact ((seesLatest_iff (tracks_after sampleTables sameSecond) behind).mp seen).2 rfl

end SensorRun

end OsLab.Lunix
