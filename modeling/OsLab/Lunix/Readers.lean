import Mathlib.Logic.Function.Basic
import OsLab.Lunix.Freshness

/-!
# Concurrent readers

`lunix_chrdev_read` and `lunix_chrdev_state_update` cut at their locks and at their reads of
what others write. Any number of threads read any number of open files while the sensors
are updated.
-/

namespace OsLab.Lunix

/-- The step a reader makes next. `raw` stands for `raw_time` and `raw_value`. -/
inductive Stage where
  | down
  | rawTime
  | rawValue (time : UInt32)
  | lock (raw : MsrData)
  | needsRefresh (raw : MsrData)
  | lockAgain (raw : MsrData)
  | format (raw : MsrData)
  | bufTimestamp (raw : MsrData)
  | up
  | wait
  | waitCompare (bufTimestamp : UInt32)
  | downAgain
  | endOfFile
  deriving DecidableEq, Repr

def Stage.holds : Stage → Bool
  | .down | .wait | .waitCompare _ | .downAgain => false
  | _ => true

inductive Reader (φ : Type) where
  | idle
  | reading (file : φ) (fPos : Nat) (stage : Stage)
  deriving DecidableEq

/-- `holder` says which thread has the semaphore of a file. -/
structure Readers (τ φ : Type) where
  sensors : Nat → Sensor
  files : φ → ChrdevState
  holder : φ → Option τ
  readers : τ → Reader φ

inductive ReaderEvent (τ φ : Type) where
  | updated (sensor : Nat) (m : Measurement)
  | read (t : τ) (file : φ) (fPos : Nat)
  /-- The next step of a thread. A signal interrupts it only where the code lets it. -/
  | advance (t : τ) (interrupted : Bool)

namespace Readers

variable {τ φ : Type}

/-- The files of the minor numbers, just opened. -/
def start (minor : φ → Nat) : Readers τ φ :=
  ⟨fun _ => lunixSensorInit, fun file => lunixChrdevOpen (minor file), fun _ => none, fun _ => .idle⟩

variable [DecidableEq τ] [DecidableEq φ]

def enter (t : τ) (r : Reader φ) (s : Readers τ φ) : Readers τ φ :=
  { s with readers := Function.update s.readers t r }

def hold (file : φ) (t : Option τ) (s : Readers τ φ) : Readers τ φ :=
  { s with holder := Function.update s.holder file t }

def cache (file : φ) (state : ChrdevState) (s : Readers τ φ) : Readers τ φ :=
  { s with files := Function.update s.files file state }

/-- `down_interruptible`. A thread that finds the semaphore taken stays where it is. -/
def downInterruptible (t : τ) (file : φ) (interrupted : Bool) (next : Reader φ) (s : Readers τ φ) :
    Readers τ φ :=
  if interrupted then enter t .idle s
  else if s.holder file = none then enter t next (hold file (some t) s)
  else s

def advance (tables : LookupTables) (minor : φ → Nat) (t : τ) (interrupted : Bool) (s : Readers τ φ) :
    Readers τ φ :=
  match s.readers t with
  | .idle => s
  | .reading file fPos stage =>
    let sensor := s.sensors (minor file >>> 3)
    let state := s.files file
    let goto (stage : Stage) := enter t (.reading file fPos stage)
    match stage with
    | .down =>
      downInterruptible t file interrupted (.reading file fPos (if fPos = 0 then .rawTime else .endOfFile)) s
    | .rawTime => goto (.rawValue (sensor state.type).lastUpdate) s
    | .rawValue time => goto (.lock ⟨time, (sensor state.type).value⟩) s
    | .lock _ => goto (.needsRefresh (sensor state.type)) s
    | .needsRefresh raw =>
      if lunixChrdevStateNeedsRefresh sensor state then goto (.lockAgain raw) s else goto .up s
    | .lockAgain _ => goto (.format (sensor state.type)) s
    | .format raw =>
      match tables.properData state.type raw.value with
      | some properData =>
        let (lim, data) := snprintf state.bufData bufSz (measurementText properData)
        goto (.bufTimestamp raw) (cache file { state with bufLim := lim, bufData := data } s)
      | none => goto .up s
    | .bufTimestamp raw => goto .endOfFile (cache file { state with bufTimestamp := raw.lastUpdate } s)
    | .up => hold file none (goto .wait s)
    | .wait => if interrupted then enter t .idle s else goto (.waitCompare state.bufTimestamp) s
    | .waitCompare time => if time ≠ (sensor state.type).lastUpdate then goto .downAgain s else goto .wait s
    | .downAgain => downInterruptible t file interrupted (.reading file fPos .rawTime) s
    -- What `copyOut` does, which writes neither the file's state nor the sensor.
    | .endOfFile => hold file none (enter t .idle s)

def step (tables : LookupTables) (minor : φ → Nat) (s : Readers τ φ) : ReaderEvent τ φ → Readers τ φ
  | .updated sensor m =>
    { s with
      sensors := Function.update s.sensors sensor
        (lunixSensorUpdate m.seconds m.batt m.temp m.light (s.sensors sensor)) }
  | .read t file fPos =>
    if s.readers t = .idle then enter t (.reading file fPos .down) s else s
  | .advance t interrupted => advance tables minor t interrupted s

def after (tables : LookupTables) (minor : φ → Nat) (events : List (ReaderEvent τ φ)) : Readers τ φ :=
  events.foldl (step tables minor) (start minor)

/-! ### A state update that nothing comes between -/

theorem stateUpdate_uninterrupted (tables : LookupTables) (minor : φ → Nat) (s : Readers τ φ) {t : τ}
    {file : φ} {fPos : Nat} (reading : s.readers t = .reading file fPos .rawTime) :
    ∃ n, let s' := (List.replicate n (.advance t false)).foldl (step tables minor) s
      let (ret, state) := lunixChrdevStateUpdate tables (s.sensors (minor file >>> 3)) (s.files file)
      s'.files = Function.update s.files file state ∧ s'.holder = s.holder ∧
        s'.readers t = .reading file fPos (if ret = 0 then .endOfFile else .up) := by
  by_cases fresh : lunixChrdevStateNeedsRefresh (s.sensors (minor file >>> 3)) (s.files file) = true
  · cases read : tables.properData (s.files file).type (s.sensors (minor file >>> 3) (s.files file).type).value with
    | some n =>
      let text := snprintf (s.files file).bufData bufSz (measurementText n)
      have update : lunixChrdevStateUpdate tables (s.sensors (minor file >>> 3)) (s.files file) =
          (0, ⟨(s.files file).type, text.1, text.2, (s.sensors (minor file >>> 3) (s.files file).type).lastUpdate⟩) := by
        unfold lunixChrdevStateUpdate
        rw [if_pos fresh, read]
      rw [update]
      refine ⟨7, ?_, ?_, ?_⟩
      all_goals simp [List.replicate, step, advance, reading, enter, cache, fresh, read, text]
    | none =>
      have update : lunixChrdevStateUpdate tables (s.sensors (minor file >>> 3)) (s.files file) =
          (-eagain, s.files file) := by
        unfold lunixChrdevStateUpdate
        rw [if_pos fresh, read]
      rw [update]
      refine ⟨6, ?_, ?_, ?_⟩
      all_goals simp [List.replicate, step, advance, reading, enter, fresh, read, eagain]
  · have update : lunixChrdevStateUpdate tables (s.sensors (minor file >>> 3)) (s.files file) =
        (-eagain, s.files file) := by
      unfold lunixChrdevStateUpdate
      rw [if_neg fresh]
    rw [update]
    refine ⟨4, ?_, ?_, ?_⟩
    all_goals simp [List.replicate, step, advance, reading, enter, fresh, eagain]

end Readers

end OsLab.Lunix
