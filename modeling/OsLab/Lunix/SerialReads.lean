import Mathlib.Data.List.Forall2
import OsLab.Foundation.Sampling
import OsLab.Lunix.ChrdevRead
import OsLab.Lunix.SerialLine

/-!
# From the serial line to the readers

Packets arrive while any number of open files are read, each by one process at a time: the texts
that the reads of a file return are measurements of its node, in the order in which they were sent, none
of them twice.
-/

namespace OsLab.Lunix
open Transducer Sampling

/-! ### Reads that wait -/

/-- An open file, the read that sleeps in it, and what its reads have returned and copied. -/
structure Reading where
  file : OpenFile
  fPos : Nat
  waiting : Option ReadCall
  returned : List (Int × List Char)

namespace Reading

variable (tables : LookupTables) {cnt : Nat} (d : Device cnt)

def fail (ret : Int) (r : Reading) : Reading :=
  { r with waiting := none, returned := r.returned ++ [(ret, [])] }

/-- The part of `lunix_chrdev_read` behind the loop. -/
def finish (call : ReadCall) (state : ChrdevState) (r : Reading) : Reading :=
  let result := copyOut call state r.fPos
  { file := { r.file with state := result.state }
    fPos := result.fPos
    waiting := none
    returned := r.returned ++ [(result.ret, result.copied)] }

/-- One round of the loop: `lunix_chrdev_state_update`, and the wait that follows -EAGAIN. -/
def round (call : ReadCall) (r : Reading) : Except Fault Reading := do
  let (ret, state) ← Pages.lunixChrdevStateUpdate tables d r.file
  if ret = -eagain then pure { r with file := { r.file with state := state }, waiting := some call }
  else pure (r.finish call state)

def read (call : ReadCall) (r : Reading) : Except Fault Reading :=
  if call.interrupted then pure (r.fail (-erestartsys))
  else if r.fPos = 0 then r.round tables d call
  else pure (r.finish call r.file.state)

/-- The condition of `wait_event_interruptible`, and `down_interruptible`. -/
def wake (r : Reading) : Except Fault Reading :=
  match r.waiting with
  | none => pure r
  | some call => do
    if ← Pages.lunixChrdevStateNeedsRefresh d r.file then r.round tables d call else pure r

/-- A signal ends the wait. -/
def signal (r : Reading) : Reading :=
  match r.waiting with
  | none => r
  | some _ => r.fail (-erestartsys)

end Reading

/-- The device and its open files. -/
structure Line (cnt : Nat) (φ : Type) where
  device : Device cnt
  readings : φ → Reading

inductive LineEvent (φ : Type) where
  | receive (arrival : Arrival)
  | read (file : φ) (call : ReadCall)
  | wake (file : φ)
  | signal (file : φ)

namespace LineEvent

variable {φ : Type}

def arrival : LineEvent φ → Option Arrival
  | receive arrival => some arrival
  | _ => none

/-- A read asks for at least the size of the buffer that has the text. -/
def Whole : LineEvent φ → Prop
  | read _ call => bufSz ≤ call.cnt
  | _ => True

instance : DecidablePred (Whole (φ := φ)) := fun e =>
  match e with
  | read _ call => inferInstanceAs (Decidable (bufSz ≤ call.cnt))
  | receive _ | wake _ | signal _ => inferInstanceAs (Decidable True)

end LineEvent

namespace Line

variable {cnt : Nat} {φ : Type}

def start (cnt : Nat) (state : ProtocolState) (minor : φ → Nat) : Line cnt φ :=
  ⟨Device.init cnt state, fun file => ⟨⟨minor file >>> 3, lunixChrdevOpen (minor file)⟩, 0, none, []⟩⟩

variable [DecidableEq φ]

def put (file : φ) (r : Reading) (s : Line cnt φ) : Line cnt φ :=
  { s with readings := Function.update s.readings file r }

@[simp] theorem put_self (file : φ) (r : Reading) (s : Line cnt φ) : (s.put file r).readings file = r :=
  Function.update_self ..

/-- A file whose read sleeps is not read by another process. -/
def step (tables : LookupTables) (s : Line cnt φ) : LineEvent φ → Except Fault (Line cnt φ)
  | .receive arrival => do
    let d ← receive false s.device arrival
    pure { s with device := d }
  | .read file call =>
    if (s.readings file).waiting.isSome then pure s
    else do
      let r ← (s.readings file).read tables s.device call
      pure (s.put file r)
  | .wake file => do
    let r ← (s.readings file).wake tables s.device
    pure (s.put file r)
  | .signal file => pure (s.put file (s.readings file).signal)

end Line

/-! ### One file -/

/-- A read from the start that asks for the whole text. -/
theorem copyOut_whole {call : ReadCall} {s : ChrdevState} (small : s.bufLim < bufSz) (whole : bufSz ≤ call.cnt) :
    copyOut call s 0 = if call.faults then ⟨-efault, s, 0, []⟩ else ⟨s.bufLim, s, 0, s.bufData.take s.bufLim⟩ := by
  cases faults : call.faults with
  | false =>
    have all : min call.cnt s.bufLim = s.bufLim := Nat.min_eq_right (by omega)
    rw [copyOut_first small faults, all]
    simp
  | true =>
    unfold copyOut copyToUser
    simp [faults]

/-- What a file of type `type` shows of a measurement. -/
def shownText (tables : LookupTables) (type : Nat) (m : Measurement) : List Char :=
  measurementText ((tables.properData type (m.raw type)).getD 0)

namespace Reading

/-- What the reads that succeeded have copied. -/
def copies (r : Reading) : List (List Char) := (r.returned.filter fun result => 0 ≤ result.1).map Prod.snd

theorem copies_append (r : List (Int × List Char)) (ret : Int) (text : List Char) :
    ((r ++ [(ret, text)]).filter fun result => 0 ≤ result.1).map Prod.snd =
      (r.filter fun result => 0 ≤ result.1).map Prod.snd ++ if 0 ≤ ret then [text] else [] := by
  by_cases success : 0 ≤ ret <;> simp [success]

/-- What a round or a wake-up of a sleeping read does, given the last measurement. -/
def Answered (tables : LookupTables) (type : Nat) (last : Option Measurement) (call : ReadCall) (r r' : Reading) : Prop :=
  if r.file.state.bufTimestamp = stamp last then r'.waiting = some call ∧ r'.returned = r.returned
  else ∃ m, last = some m ∧ r'.waiting = none ∧ r'.returned = r.returned ++
    [if call.faults then (-efault, []) else (((shownText tables type m).length : Int), shownText tables type m)]

/-- A file of a sensor with these updates. `s` tells which of them it has shown and handed out. -/
structure Follows (tables : LookupTables) (minor : Nat) (measured : List Measurement) (r : Reading) (s : Sampled Measurement) :
    Prop where
  sensor : r.file.sensor = minor >>> 3
  type : r.file.state.type = minor % 8
  fPos : r.fPos = 0
  written : s.written = measured
  ordered : s.Ordered
  stamps : r.file.state.bufTimestamp = stamp s.shown
  asks : ∀ call, r.waiting = some call → bufSz ≤ call.cnt
  copied : r.copies = s.taken.map (shownText tables (minor % 8))

section
variable {tables : LookupTables} {minor cnt : Nat} {d : Device cnt} {updates : List (Nat × Measurement)}
  {r : Reading} {s : Sampled Measurement}

theorem Follows.inside (follows : Follows tables minor (history (minor >>> 3) updates) r s)
    (shows : Shows updates d.sensors) (sensor : minor >>> 3 < cnt) (type : minor % 8 < 3) : Inside d r.file :=
  ⟨follows.sensor ▸ sensor, follows.type ▸ type, shows.narrow⟩

/-- What the functions of the file see of its sensor. -/
theorem Follows.page (follows : Follows tables minor (history (minor >>> 3) updates) r s) (shows : Shows updates d.sensors)
    (inside : Inside d r.file) :
    view (d.sensors ⟨_, inside.sensor⟩) r.file.state.type =
      ⟨stamp s.latest, match s.latest with
        | none => 0
        | some m => m.raw (minor % 8)⟩ := by
  rw [inside.view_page, Inside.page, shows, Sampled.latest, follows.written]
  simp only [pageOf, follows.sensor, follows.type]
  cases (history (minor >>> 3) updates).getLast? with
  | none => rfl
  | some m => simp

theorem Follows.fail (follows : Follows tables minor (history (minor >>> 3) updates) r s) {ret : Int} (negative : ret < 0) :
    Follows tables minor (history (minor >>> 3) updates) (r.fail ret) s where
  sensor := follows.sensor
  type := follows.type
  fPos := follows.fPos
  written := follows.written
  ordered := follows.ordered
  stamps := follows.stamps
  asks call waiting := by cases waiting
  copied := by
    rw [← follows.copied]
    unfold copies Reading.fail
    rw [copies_append, if_neg (by omega), List.append_nil]

theorem Follows.round (follows : Follows tables minor (history (minor >>> 3) updates) r s)
    (shows : Shows updates d.sensors) (sensor : minor >>> 3 < cnt) (type : minor % 8 < 3) {call : ReadCall}
    (whole : bufSz ≤ call.cnt) :
    ∃ r' s', r.round tables d call = .ok r' ∧ Follows tables minor (history (minor >>> 3) updates) r' s' ∧
      Answered tables (minor % 8) s.latest call r r' := by
  have inside := follows.inside shows sensor type
  have page := follows.page shows inside
  unfold Reading.round Answered
  rw [inside.stateUpdate_eq]
  have decided := @stateUpdate_succeeds_iff tables (view (d.sensors ⟨_, inside.sensor⟩)) r.file.state
  rw [page] at decided
  by_cases same : r.file.state.bufTimestamp = stamp s.latest
  · have failed := stateUpdate_fails (mt decided.mp fun fresh => fresh.2 same)
    rw [failed]
    refine ⟨{ r with waiting := some call }, s, rfl, ⟨follows.sensor, follows.type, follows.fPos, follows.written,
      follows.ordered, follows.stamps, ?_, follows.copied⟩, ?_⟩
    · intro other waiting
      cases waiting
      exact whole
    · rw [if_pos same]
      exact ⟨rfl, rfl⟩
  · obtain ⟨m, last⟩ := follows.ordered.latest_some stamp fun fresh => same (follows.stamps.trans fresh.symm)
    rcases updated : lunixChrdevStateUpdate tables (view (d.sensors ⟨_, inside.sensor⟩)) r.file.state with ⟨ret, c⟩
    have done := decided.mpr ⟨follows.type ▸ type, same⟩
    rw [updated] at done
    obtain rfl : ret = 0 := done
    obtain ⟨n, proper, sameType, lim, text, time⟩ := stateUpdate_cached updated
    rw [page, last] at proper
    rw [page] at time
    have shownHere : shownText tables (minor % 8) m = measurementText n := by
      rw [follows.type] at proper
      simp only at proper
      rw [shownText, proper, Option.getD_some]
    have bounds := properData_bounds proper
    have room : c.bufLim < bufSz := lim ▸ measurementText_length bounds.1 bounds.2
    have fresh : stamp s.latest ≠ stamp s.shown := fun fresh => same (follows.stamps.trans fresh.symm)
    have finished : r.finish call c = { r with
        file := { r.file with state := c }, waiting := none
        returned := r.returned ++
          [if call.faults then (-efault, []) else (((measurementText n).length : Int), measurementText n)] } := by
      unfold finish
      rw [follows.fPos, copyOut_whole room whole, text, lim]
      cases call.faults with
      | false => simp [← follows.fPos]
      | true => simp [← follows.fPos]
    refine ⟨r.finish call c, s.sample (!call.faults) m, rfl, ?_, ?_⟩
    · rw [finished]
      constructor
      · exact follows.sensor
      · exact sameType.trans follows.type
      · exact follows.fPos
      · exact follows.written
      · exact follows.ordered.sample fresh _ last
      · rw [time, last]
        rfl
      · intro other waiting
        cases waiting
      · have before := follows.copied
        unfold copies at before ⊢
        rw [copies_append, before]
        cases call.faults with
        | false => simp [Sampled.sample, shownHere]
        | true => simp [Sampled.sample, efault]
    · rw [if_neg same, finished]
      exact ⟨m, last, rfl, by rw [shownHere]⟩

theorem Follows.read (follows : Follows tables minor (history (minor >>> 3) updates) r s)
    (shows : Shows updates d.sensors) (sensor : minor >>> 3 < cnt) (type : minor % 8 < 3) {call : ReadCall}
    (whole : bufSz ≤ call.cnt) :
    ∃ r' s', r.read tables d call = .ok r' ∧ Follows tables minor (history (minor >>> 3) updates) r' s' ∧
      (call.interrupted = false → Answered tables (minor % 8) s.latest call r r') := by
  unfold Reading.read
  cases interrupted : call.interrupted with
  | true =>
    refine ⟨r.fail (-erestartsys), s, rfl, follows.fail ?_, fun uninterrupted => by cases uninterrupted⟩
    show (-erestartsys : Int) < 0
    decide
  | false =>
    obtain ⟨r', s', round, follows', answered⟩ := follows.round shows sensor type whole
    rw [if_neg Bool.false_ne_true, if_pos follows.fPos]
    exact ⟨r', s', round, follows', fun _ => answered⟩

theorem Follows.wake (follows : Follows tables minor (history (minor >>> 3) updates) r s)
    (shows : Shows updates d.sensors) (sensor : minor >>> 3 < cnt) (type : minor % 8 < 3) :
    ∃ r' s', r.wake tables d = .ok r' ∧ Follows tables minor (history (minor >>> 3) updates) r' s' ∧
      ∀ call, r.waiting = some call → Answered tables (minor % 8) s.latest call r r' := by
  unfold Reading.wake
  cases waiting : r.waiting with
  | none => exact ⟨r, s, rfl, follows, fun call here => by cases here⟩
  | some call =>
    have inside := follows.inside shows sensor type
    simp only [inside.needsRefresh_eq, bind, Except.bind]
    by_cases fresh : lunixChrdevStateNeedsRefresh (view (d.sensors ⟨_, inside.sensor⟩)) r.file.state = true
    · obtain ⟨r', s', round, follows', answered⟩ := follows.round shows sensor type (follows.asks call waiting)
      rw [if_pos fresh]
      refine ⟨r', s', round, follows', fun other here => ?_⟩
      cases here
      exact answered
    · rw [if_neg fresh]
      refine ⟨r, s, rfl, follows, fun other here => ?_⟩
      cases here
      have same : r.file.state.bufTimestamp = stamp s.latest := by
        unfold lunixChrdevStateNeedsRefresh at fresh
        rw [follows.page shows inside] at fresh
        simpa using fresh
      unfold Answered
      rw [if_pos same]
      exact ⟨waiting, rfl⟩

theorem Follows.signal (follows : Follows tables minor (history (minor >>> 3) updates) r s) :
    Follows tables minor (history (minor >>> 3) updates) r.signal s := by
  unfold Reading.signal
  cases r.waiting with
  | none => exact follows
  | some call =>
    refine follows.fail ?_
    show (-erestartsys : Int) < 0
    decide

/-- More updates of any sensors. -/
theorem Follows.more (follows : Follows tables minor (history (minor >>> 3) updates) r s) (more : List (Nat × Measurement)) :
    Follows tables minor (history (minor >>> 3) (updates ++ more)) r (s.write (history (minor >>> 3) more)) where
  sensor := follows.sensor
  type := follows.type
  fPos := follows.fPos
  written := by rw [history_append, Sampled.write_written, follows.written]
  ordered := follows.ordered.write _
  stamps := follows.stamps
  asks := follows.asks
  copied := follows.copied

theorem follows_start : Follows tables minor [] ⟨⟨minor >>> 3, lunixChrdevOpen minor⟩, 0, none, []⟩ .start where
  sensor := rfl
  type := rfl
  fPos := rfl
  written := rfl
  ordered := Sampled.ordered_start
  stamps := rfl
  asks _ waiting := by cases waiting
  copied := rfl

end

end Reading

/-! ### Runs -/

namespace Line
open Reading

variable {φ : Type} [DecidableEq φ] {tables : LookupTables} {cnt : Nat} {minor : φ → Nat}

/-- The line after these arrivals. -/
structure Tracked (tables : LookupTables) (minor : φ → Nat) (state : ProtocolState) (arrivals : List Arrival)
    (s : Line cnt φ) : Prop where
  protocol : s.device.protocol = (run (emit cnt) (lunixProtocolInit state) arrivals).1
  shows : Shows (run (emit cnt) (lunixProtocolInit state) arrivals).2 s.device.sensors
  files : ∀ file, ∃ sampled, Follows tables (minor file)
    (history (minor file >>> 3) (run (emit cnt) (lunixProtocolInit state) arrivals).2) (s.readings file) sampled

variable {state : ProtocolState} {arrivals : List Arrival} {s : Line cnt φ}

theorem Tracked.put (tracked : Tracked tables minor state arrivals s) {file : φ} {r : Reading}
    (follows : ∃ sampled, Follows tables (minor file)
      (history (minor file >>> 3) (run (emit cnt) (lunixProtocolInit state) arrivals).2) r sampled) :
    Tracked tables minor state arrivals (s.put file r) where
  protocol := tracked.protocol
  shows := tracked.shows
  files other := by
    by_cases same : other = file
    · subst same
      simpa only [Line.put, Function.update_self] using follows
    · simpa only [Line.put, Function.update_of_ne same] using tracked.files other

theorem Tracked.receive (tracked : Tracked tables minor state arrivals s) (arrival : Arrival) :
    ∃ s', s.step tables (.receive arrival) = .ok s' ∧ Tracked tables minor state (arrivals ++ [arrival]) s' := by
  obtain ⟨d, received, protocol, shows⟩ := receive_shows tracked.shows arrival
  have appended : run (emit cnt) (lunixProtocolInit state) (arrivals ++ [arrival]) =
      ((emit cnt s.device.protocol arrival).1,
        (run (emit cnt) (lunixProtocolInit state) arrivals).2 ++ (emit cnt s.device.protocol arrival).2) := by
    rw [run_append, run_cons, run_nil, List.append_nil, ← tracked.protocol]
  generalize emit cnt s.device.protocol arrival = emitted at protocol shows appended
  refine ⟨{ s with device := d }, ?_, ?_⟩
  · simp only [Line.step, received]
    rfl
  · constructor
    · rw [appended]
      exact protocol
    · rw [appended]
      exact shows
    · intro file
      obtain ⟨sampled, follows⟩ := tracked.files file
      rw [appended]
      exact ⟨_, follows.more _⟩

theorem Tracked.step (valid : ∀ file, minor file >>> 3 < cnt ∧ minor file % 8 < 3)
    (tracked : Tracked tables minor state arrivals s) {e : LineEvent φ} (whole : e.Whole) :
    ∃ s', s.step tables e = .ok s' ∧ Tracked tables minor state (arrivals ++ e.arrival.toList) s' := by
  cases e with
  | receive arrival => exact tracked.receive arrival
  | read file call =>
    rw [show (LineEvent.read file call).arrival.toList = [] from rfl, List.append_nil]
    simp only [Line.step]
    split_ifs with busy
    · exact ⟨s, rfl, tracked⟩
    · obtain ⟨sampled, follows⟩ := tracked.files file
      obtain ⟨r, sampled', read, follows', -⟩ := follows.read tracked.shows (valid file).1 (valid file).2 whole
      rw [read]
      exact ⟨_, rfl, tracked.put ⟨sampled', follows'⟩⟩
  | wake file =>
    rw [show (LineEvent.wake file).arrival.toList = [] from rfl, List.append_nil]
    obtain ⟨sampled, follows⟩ := tracked.files file
    obtain ⟨r, sampled', woken, follows', -⟩ := follows.wake tracked.shows (valid file).1 (valid file).2
    simp only [Line.step, woken]
    exact ⟨_, rfl, tracked.put ⟨sampled', follows'⟩⟩
  | signal file =>
    rw [show (LineEvent.signal file).arrival.toList = [] from rfl, List.append_nil]
    obtain ⟨sampled, follows⟩ := tracked.files file
    exact ⟨_, rfl, tracked.put ⟨sampled, follows.signal⟩⟩

theorem Tracked.run (valid : ∀ file, minor file >>> 3 < cnt ∧ minor file % 8 < 3)
    (tracked : Tracked tables minor state arrivals s) {events : List (LineEvent φ)} (whole : ∀ e ∈ events, e.Whole) :
    ∃ s', events.foldlM (Line.step tables) s = .ok s' ∧
      Tracked tables minor state (arrivals ++ events.filterMap LineEvent.arrival) s' := by
  induction events generalizing arrivals s with
  | nil => exact ⟨s, rfl, by rwa [List.filterMap_nil, List.append_nil]⟩
  | cons e events ih =>
    obtain ⟨next, one, tracked⟩ := tracked.step valid (whole e List.mem_cons_self)
    obtain ⟨last, rest, tracked⟩ := ih tracked fun e later => whole e (List.mem_cons_of_mem _ later)
    refine ⟨last, ?_, ?_⟩
    · rw [List.foldlM_cons, one]
      exact rest
    · rw [List.append_assoc] at tracked
      cases seen : e.arrival with
      | none => rwa [List.filterMap_cons_none seen, ← List.nil_append (List.filterMap _ _), ← Option.toList_none, ← seen]
      | some arrival =>
        rw [seen] at tracked
        rwa [List.filterMap_cons_some seen]

omit [DecidableEq φ] in
theorem tracked_start (tables : LookupTables) (minor : φ → Nat) (state : ProtocolState) :
    Tracked tables minor state [] (start cnt state minor) where
  protocol := rfl
  shows := shows_init state
  files _ := ⟨_, follows_start⟩

/-- However packets, reads, wake-ups and signals interleave: what the reads of a file have copied are the
texts of measurements that came from the node of its sensor, in that order, each of them once. A read that
starts or wakes up sleeps only if the second of the last such measurement, as 32 bits, is that of the one
the file has cached, and copies its text otherwise. -/
theorem serial_readings (tables : LookupTables) (cnt : Nat) (minor : φ → Nat) (state : ProtocolState)
    {events : List (LineEvent φ)} {ts : List Transmission} (valid : ∀ file, minor file >>> 3 < cnt ∧ minor file % 8 < 3)
    (whole : ∀ e ∈ events, e.Whole) (sent : Transmitted ts (events.filterMap LineEvent.arrival)) :
    ∃ s, events.foldlM (Line.step tables) (start cnt state minor) = .ok s ∧ ∀ file,
      let measured := history (minor file >>> 3) (ts.flatMap (Transmission.measured cnt))
      (∃ shown : List Measurement, shown.Sublist measured ∧
        (s.readings file).copies = shown.map (shownText tables (minor file % 8))) ∧
      (∀ call, (s.readings file).waiting = some call → ∃ s', s.step tables (.wake file) = .ok s' ∧
        Answered tables (minor file % 8) measured.getLast? call (s.readings file) (s'.readings file)) ∧
      ∀ call, (s.readings file).waiting = none → bufSz ≤ call.cnt → call.interrupted = false →
        ∃ s', s.step tables (.read file call) = .ok s' ∧
          Answered tables (minor file % 8) measured.getLast? call (s.readings file) (s'.readings file) := by
  obtain ⟨s, ran, tracked⟩ := (tracked_start tables minor state).run valid whole
  refine ⟨s, ran, fun file => ?_⟩
  obtain ⟨sampled, follows⟩ := tracked.files file
  have shows := tracked.shows
  rw [List.nil_append, emits_transmitted cnt (init_represents _) sent] at follows shows
  have last : sampled.latest = (history (minor file >>> 3) (ts.flatMap (Transmission.measured cnt))).getLast? :=
    congrArg List.getLast? follows.written
  refine ⟨⟨sampled.taken, follows.written ▸ follows.ordered.sublist, follows.copied⟩, fun call waiting => ?_,
    fun call awake size uninterrupted => ?_⟩
  · obtain ⟨r, -, woken, -, answered⟩ := follows.wake shows (valid file).1 (valid file).2
    refine ⟨s.put file r, by simp only [Line.step, woken]; rfl, ?_⟩
    rw [← last, put_self]
    exact answered call waiting
  · obtain ⟨r, -, read, -, answered⟩ := follows.read shows (valid file).1 (valid file).2 size
    refine ⟨s.put file r, by simp only [Line.step, awake, Option.isSome_none, Bool.false_eq_true, if_false, read]; rfl, ?_⟩
    rw [← last, put_self]
    exact answered uninterrupted

/-- The packet of node 1 in two buffers. -/
def twoBuffers : Transmission where
  packet := measurementPacket
  early := [⟨1000, measurementPacket.encode.take 19⟩]
  last := ⟨1001, measurementPacket.encode.drop 19⟩
  cut := by decide
  ends := by decide
  long := by decide

def wholeRead : ReadCall := ⟨64, false, [], false, by decide, by decide⟩

/-- A read of the temperature of node 1 that sleeps between the two buffers. -/
def sleepingRead : List (LineEvent Unit) :=
  [.receive ⟨1000, measurementPacket.encode.take 19⟩, .read () wholeRead, .wake (),
    .receive ⟨1001, measurementPacket.encode.drop 19⟩, .wake ()]

theorem twoBuffers_sent : Transmitted [twoBuffers] (sleepingRead.filterMap LineEvent.arrival) :=
  ⟨[], measurementPacket, measurementPacket.encode, rfl, rfl, by decide⟩

theorem serial_readings_slept :
    ∃ s, sleepingRead.foldlM (Line.step sampleTables) (start 16 zeroedState fun _ => TEMP) = .ok s ∧
      ∃ shown : List Measurement, shown.Sublist [⟨1001, 0x7E, 0x17D, 2⟩] ∧
        (s.readings ()).copies = shown.map (shownText sampleTables TEMP) := by
  obtain ⟨s, ran, files⟩ := serial_readings sampleTables 16 (fun _ => TEMP) zeroedState
    (fun _ => by decide) (by decide) twoBuffers_sent
  exact ⟨s, ran, (files ()).1⟩

end Line

end OsLab.Lunix
