import Mathlib.Logic.Function.Basic
import Mathlib.Algebra.Order.Ring.Nat

/-!
# The medical driver

`intr` and the file operations of the K24 driver, cut at their accesses to what both of them
use: the counters and every single byte of the circular buffer. `intr` runs under its
spinlock, which the file operations do not take.
-/

namespace OsLab.Exams

def efault : Int := 14
def enodev : Int := 19
def enomem : Int := 12
def erestartsys : Int := 512

/-- `sizeof(struct patient_data)`, which `bytes_to_copy` holds in 32 bits. -/
structure Layout where
  size : Nat
  positive : 0 < size
  word : size < 2 ^ 32

structure PatientData (l : Layout) where
  bytes : List UInt8
  length : bytes.length = l.size

def circBufSize (l : Layout) : Nat := 1024 * l.size

structure ChrdevState where
  lock : Bool
  localBuf : Nat → UInt8
  localCnt : Nat

/-- The step that a call of `medical_chrdev_read` makes next. -/
inductive ReadStage where
  | down
  | testCnt
  | wait
  | testPos
  | testLag
  | memcpy (done : Nat)
  | copyToUser
  deriving DecidableEq, Repr

/-- A call, and whether a byte of its next measurement was overwritten when it was made. -/
structure ReadCall where
  stage : ReadStage
  late : Bool
  deriving DecidableEq, Repr

structure ReadReturn where
  late : Bool
  ret : Int
  deriving DecidableEq, Repr

/-- An open file, with the measurements produced since the open and what its calls returned. -/
structure Stream (l : Layout) where
  state : ChrdevState
  fPos : Nat
  call : Option ReadCall
  measured : List (PatientData l)
  delivered : List (List UInt8)
  returned : List ReadReturn

/-- `intr` holds the measurement that an interrupt stores, and how many of its bytes are in the buffer. -/
structure MedicalDev (l : Layout) where
  cnt : Nat
  circBuffer : Nat → UInt8
  intr : Option (PatientData l × Nat)
  file : Option (Stream l)

inductive MedicalEvent (l : Layout) where
  /-- `medical_chrdev_open`, with the results of `nonseekable_open` and `kmalloc`. -/
  | opened (nonseekableOpen : Int) (kmalloc : Bool)
  | intr (pd : PatientData l)
  | store
  | read
  | advance
  | signal
  | fault

namespace MedicalDev

variable {l : Layout}

def boot (l : Layout) : MedicalDev l := ⟨0, fun _ => 0, none, none⟩

/-! ### Interrupts -/

/-- How many bytes have ever been stored. -/
def written (s : MedicalDev l) : Nat := s.cnt + (s.intr.elim 0 Prod.snd)

/-- Interrupts wait for each other. The counter never wraps. -/
def intrEnter (pd : PatientData l) (s : MedicalDev l) : MedicalDev l :=
  if s.intr.isNone ∧ s.cnt + l.size < 2 ^ 128 then { s with intr := some (pd, 0) } else s

def measure (pd : PatientData l) (f : Stream l) : Stream l := { f with measured := f.measured ++ [pd] }

def intrStore (s : MedicalDev l) : MedicalDev l :=
  match s.intr with
  | none => s
  | some (pd, done) =>
    if done < l.size then
      { s with
        circBuffer := Function.update s.circBuffer (s.cnt % circBufSize l + done) (pd.bytes.getD done 0)
        intr := some (pd, done + 1) }
    else { s with cnt := s.cnt + l.size, intr := none, file := s.file.map (measure pd) }

/-! ### File operations -/

def medicalChrdevOpen (nonseekableOpen : Int) (kmalloc : Bool) (cnt : Nat) : Except Int ChrdevState :=
  if nonseekableOpen < 0 then .error (-enodev)
  else if !kmalloc then .error (-enomem)
  else .ok ⟨false, fun _ => 0, cnt⟩

/-- The next measurement has lost its byte `i` to a later one. -/
def Overwritten (s : MedicalDev l) (f : Stream l) (i : Nat) : Prop :=
  f.state.localCnt + i + circBufSize l < s.written

instance (s : MedicalDev l) (f : Stream l) (i : Nat) : Decidable (s.Overwritten f i) :=
  inferInstanceAs (Decidable (_ < _))

end MedicalDev

namespace Stream

variable {l : Layout}

def goto (stage : ReadStage) (late : Bool) (f : Stream l) : Stream l := { f with call := some ⟨stage, late⟩ }

def up (f : Stream l) : Stream l := { f with state := { f.state with lock := false } }

def finish (late : Bool) (ret : Int) (f : Stream l) : Stream l :=
  { f with call := none, returned := f.returned ++ [⟨late, ret⟩] }

/-- The counters are of 128 bits. -/
def lag (cnt : Nat) (f : Stream l) : Nat := (cnt + 2 ^ 128 - f.state.localCnt) % 2 ^ 128

def advance (cnt : Nat) (circBuffer : Nat → UInt8) (late : Bool) (f : Stream l) : ReadStage → Stream l
  | .down => if f.state.lock then f else goto .testCnt late { f with state := { f.state with lock := true } }
  | .testCnt => goto (if cnt = f.state.localCnt then .wait else .testPos) late f
  | .wait => if f.state.localCnt < cnt then goto .testPos late f else f
  | .testPos => goto (if f.fPos = 0 then .testLag else .memcpy 0) late f
  -- The assignment to `f_pos` changes the pointer only, and the semaphore stays down.
  | .testLag => if circBufSize l ≤ lag cnt f then finish late 0 f else goto (.memcpy 0) late f
  | .memcpy done =>
    if done < l.size then
      goto (.memcpy (done + 1)) late
        { f with
          state := { f.state with
            localBuf := Function.update f.state.localBuf done (circBuffer (f.state.localCnt % circBufSize l + done)) } }
    else goto .copyToUser late f
  | .copyToUser =>
    finish late l.size (up
      { f with
        state := { f.state with localCnt := f.state.localCnt + l.size }
        fPos := f.fPos + l.size
        delivered := f.delivered ++ [(List.range l.size).map f.state.localBuf] })

/-- What `wait_event_interruptable` returns when a signal ends it. -/
def interrupted : Int := -erestartsys

def signal (cnt : Nat) (late : Bool) (f : Stream l) : ReadStage → Stream l
  | .down => if f.state.lock then finish late (-erestartsys) f else f
  | .wait =>
    if f.state.localCnt < cnt then f
    else if 0 < interrupted then finish late (-erestartsys) (up f)
    else goto .testPos late f
  | _ => f

def fault (late : Bool) (f : Stream l) : ReadStage → Stream l
  | .copyToUser => finish late (-efault) (up f)
  | _ => f

end Stream

namespace MedicalDev

variable {l : Layout}

/-- A step of the call in progress, if there is one. -/
def calling (step : Bool → Stream l → ReadStage → Stream l) (s : MedicalDev l) : MedicalDev l :=
  match s.file with
  | none => s
  | some f => match f.call with
    | none => s
    | some call => { s with file := some (step call.late f call.stage) }

def openFile (nonseekableOpen : Int) (kmalloc : Bool) (s : MedicalDev l) : MedicalDev l :=
  if (s.file.bind Stream.call).isSome then s
  else match medicalChrdevOpen nonseekableOpen kmalloc s.cnt with
    | .error _ => { s with file := none }
    | .ok state => { s with file := some ⟨state, 0, none, [], [], []⟩ }

def readEnter (s : MedicalDev l) : MedicalDev l :=
  match s.file with
  | none => s
  | some f => if f.call.isSome then s else { s with file := some (f.goto .down (s.Overwritten f 0)) }

def step (s : MedicalDev l) : MedicalEvent l → MedicalDev l
  | .opened nonseekableOpen kmalloc => openFile nonseekableOpen kmalloc s
  | .intr pd => intrEnter pd s
  | .store => intrStore s
  | .read => readEnter s
  | .advance => calling (fun late f => f.advance s.cnt s.circBuffer late) s
  | .signal => calling (fun late f => f.signal s.cnt late) s
  | .fault => calling (fun late f => f.fault late) s

end MedicalDev

end OsLab.Exams
