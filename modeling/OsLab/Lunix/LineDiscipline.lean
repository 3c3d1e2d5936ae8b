import OsLab.Lunix.Resync

/-!
# The line discipline

TTYs take the discipline and leave it again. One counter lets one TTY have it at a time, and one parser
takes the bytes of all of them.
-/

namespace OsLab.Lunix
open Transducer Runs

def eperm : Int := 1
def ebusy : Int := 16

/-- The return value and `lunix_disc_available`. -/
def lunixLdiscOpen (available : Int) (capable : Bool) : Int × Int :=
  if capable = false then (-eperm, available)
  else if available = 0 then (-ebusy, available)
  else (0, available - 1)

def lunixLdiscClose (available : Int) : Int := available + 1

structure Discipline where
  available : Int
  attached : List Nat
  protocol : ProtocolState
  updates : List (Nat × Measurement)

/-- `lunix_ldisc_init`, after the parser has been initialised. -/
def lunixLdiscInit (state : ProtocolState) : Discipline := ⟨1, [], lunixProtocolInit state, []⟩

inductive TtyCall where
  | opened (tty : Nat) (capable : Bool) (ret : Int)
  | closed (tty : Nat)
  | received (tty : Nat) (arrival : Arrival)

/-- The TTY layer closes what it has opened, and gives its bytes to that. -/
inductive Discipline.Step (cnt : Nat) : Discipline → TtyCall → Discipline → Prop
  | opened (d : Discipline) (tty : Nat) (capable : Bool) :
      Step cnt d (.opened tty capable (lunixLdiscOpen d.available capable).1)
        { d with
          available := (lunixLdiscOpen d.available capable).2
          attached := if (lunixLdiscOpen d.available capable).1 = 0 then tty :: d.attached else d.attached }
  | closed {d : Discipline} {tty : Nat} : tty ∈ d.attached →
      Step cnt d (.closed tty) { d with available := lunixLdiscClose d.available, attached := d.attached.erase tty }
  | received {d : Discipline} {tty : Nat} (arrival : Arrival) : tty ∈ d.attached →
      Step cnt d (.received tty arrival)
        { d with protocol := (emit cnt d.protocol arrival).1, updates := d.updates ++ (emit cnt d.protocol arrival).2 }

/-! ### One TTY at a time -/

/-- The TTY that has the discipline. -/
def TtyCall.holder (holder : Option Nat) : TtyCall → Option Nat
  | .opened tty _ ret => if ret = 0 then some tty else holder
  | .closed _ => none
  | .received _ _ => holder

/-- What a call must be, given who has the discipline. -/
def TtyCall.Proper (holder : Option Nat) : TtyCall → Prop
  | .opened _ capable ret => ret = if capable = false then -eperm else if holder = none then 0 else -ebusy
  | .closed tty => holder = some tty
  | .received tty _ => holder = some tty

def TtyCall.arrival : TtyCall → Option Arrival
  | .received _ arrival => some arrival
  | _ => none

/-- The discipline after the calls. -/
structure Serves (cnt : Nat) (state : ProtocolState) (calls : List TtyCall) (d : Discipline) : Prop where
  attached : d.attached = (calls.foldl TtyCall.holder none).toList
  available : d.available = 1 - d.attached.length
  parsed : run (emit cnt) (lunixProtocolInit state) (calls.filterMap TtyCall.arrival) = (d.protocol, d.updates)

section
variable {cnt : Nat} {state : ProtocolState} {calls : List TtyCall} {d d' : Discipline} {call : TtyCall}

theorem serves_init : Serves cnt state [] (lunixLdiscInit state) := ⟨rfl, rfl, rfl⟩

theorem Serves.holder (serves : Serves cnt state calls d) {tty : Nat} (member : tty ∈ d.attached) :
    calls.foldl TtyCall.holder none = some tty := by
  rw [serves.attached] at member
  exact Option.mem_toList.mp member

theorem Serves.quiet (serves : Serves cnt state calls d) (none : call.arrival = none) (protocol : d'.protocol = d.protocol)
    (updates : d'.updates = d.updates) :
    run (emit cnt) (lunixProtocolInit state) ((calls ++ [call]).filterMap TtyCall.arrival) = (d'.protocol, d'.updates) := by
  rw [List.filterMap_append, List.filterMap_cons_none none, List.filterMap_nil, List.append_nil, protocol, updates]
  exact serves.parsed

theorem Serves.step (serves : Serves cnt state calls d) (step : Discipline.Step cnt d call d') :
    call.Proper (calls.foldl TtyCall.holder none) ∧ Serves cnt state (calls ++ [call]) d' := by
  have attached := serves.attached
  have available := serves.available
  rw [attached] at available
  cases step with
  | opened tty capable =>
    cases held : calls.foldl TtyCall.holder none with
    | none =>
      rw [held] at attached available
      rw [show d.available = 1 from available, attached]
      cases capable <;> exact ⟨rfl, by rw [List.foldl_append, held]; rfl, rfl, serves.quiet rfl rfl rfl⟩
    | some other =>
      rw [held] at attached available
      rw [show d.available = 0 from available, attached]
      cases capable <;> exact ⟨rfl, by rw [List.foldl_append, held]; rfl, rfl, serves.quiet rfl rfl rfl⟩
  | @closed tty member =>
    have holder := serves.holder member
    rw [holder] at attached available
    rw [show d.available = 0 from available, attached]
    refine ⟨holder, ?_, ?_, serves.quiet rfl rfl rfl⟩
    · rw [List.foldl_append, Option.toList_some, List.erase_cons_head]
      rfl
    · rw [Option.toList_some, List.erase_cons_head]
      rfl
  | received arrival member =>
    have holder := serves.holder member
    refine ⟨holder, ?_, serves.available, ?_⟩
    · rw [List.foldl_append]
      exact attached
    · rw [List.filterMap_append, run_append, serves.parsed]
      simp only [TtyCall.arrival, List.filterMap_cons, List.filterMap_nil, run_cons, run_nil, List.append_nil]

/-- Every call is what it must be for the TTY that has the discipline, and the next discipline serves it. -/
theorem Serves.run {more : List TtyCall} (serves : Serves cnt state calls d) (steps : Steps (Discipline.Step cnt) d more d') :
    Serves cnt state (calls ++ more) d' ∧
      ∀ before call after, more = before ++ call :: after → call.Proper ((calls ++ before).foldl TtyCall.holder none) := by
  induction steps generalizing calls with
  | nil =>
    refine ⟨by rwa [List.append_nil], fun before call after same => ?_⟩
    exact absurd same.symm (by simp)
  | @cons _ _ _ one more step _ ih =>
    obtain ⟨proper, next⟩ := serves.step step
    obtain ⟨last, rest⟩ := ih next
    rw [List.append_assoc] at last
    refine ⟨last, fun before call after same => ?_⟩
    cases before with
    | nil =>
      rw [List.append_nil, ← (List.cons.inj same).1]
      exact proper
    | cons first before =>
      obtain ⟨rfl, others⟩ := List.cons.inj same
      have proper := rest before call after others
      rwa [List.append_assoc] at proper

theorem emits_represents (cnt : Nat) {s : ProtocolState} (represented : ∃ d, Represents s d) (arrivals : List Arrival) :
    ∃ d, Represents (run (emit cnt) s arrivals).1 d := by
  induction arrivals generalizing s with
  | nil => exact represented
  | cons arrival arrivals ih =>
    obtain ⟨d, r⟩ := represented
    rw [run_cons]
    dsimp only
    refine ih ?_
    simp only [emit]
    exact receivedBuf_represents r cnt arrival.buf

end

/-- Over any run of the line discipline: what each `lunix_ldisc_open` returns is what a lock that one TTY can hold gives, and
bytes come from its holder only. All of them go through the one parser in the order in which they come, also across TTYs; and
whatever they were, behind bytes that resynchronise the parser the sensors get exactly the measurements of the packets. -/
theorem line_discipline_run {cnt : Nat} {state : ProtocolState} {calls : List TtyCall} {d : Discipline}
    (steps : Steps (Discipline.Step cnt) (lunixLdiscInit state) calls d) :
    (∀ before call after, calls = before ++ call :: after → call.Proper (before.foldl TtyCall.holder none)) ∧
      run (emit cnt) (lunixProtocolInit state) (calls.filterMap TtyCall.arrival) = (d.protocol, d.updates) ∧
      ∀ before reset after ts, calls.filterMap TtyCall.arrival = before ++ (reset ++ after) → Resyncs reset →
        Transmitted ts after → d.updates =
          (run (emit cnt) (lunixProtocolInit state) (before ++ reset)).2 ++ ts.flatMap (Transmission.measured cnt) := by
  obtain ⟨serves, proper⟩ := serves_init.run steps
  rw [List.nil_append] at serves
  refine ⟨proper, serves.parsed, fun before reset after ts arrivals resyncs sent => ?_⟩
  obtain ⟨d₁, r⟩ := emits_represents cnt ⟨_, init_represents state⟩ before
  have home := resyncs_start cnt r resyncs
  have updates : _ = d.updates := congrArg Prod.snd serves.parsed
  rw [arrivals, run_append, run_append] at updates
  dsimp only at updates
  rw [emits_transmitted cnt home sent] at updates
  rw [run_append, ← updates]
  dsimp only
  rw [List.append_assoc]

/-- A TTY leaves in the middle of a packet, and another one starts with zeros. -/
def handover : List TtyCall :=
  [.opened 1 true 0, .received 1 ⟨0, [0x7E]⟩, .opened 2 true (-ebusy), .closed 1, .opened 2 true 0,
    .received 2 ⟨0, List.replicate 527 0⟩, .received 2 ⟨0, measurementPacket.encode⟩]

theorem measurementPacket_long : measurementPacket.amType = 0x0B → 17 ≤ measurementPacket.payload.length := by decide

def measurementSent : Transmission := wholePacket measurementPacket measurementPacket_long

theorem line_discipline_run_handover :
    ∃ d, Steps (Discipline.Step 16) (lunixLdiscInit zeroedState) handover d ∧
      d.updates = (run (emit 16) (lunixProtocolInit zeroedState) ([⟨0, [0x7E]⟩] ++ [⟨0, List.replicate 527 0⟩])).2 ++
        [measurementSent].flatMap (Transmission.measured 16) := by
  have steps : ∃ d, Steps (Discipline.Step 16) (lunixLdiscInit zeroedState) handover d :=
    ⟨_, .cons (.opened _ 1 true) <| .cons (.received _ List.mem_cons_self) <| .cons (.opened _ 2 true) <|
      .cons (.closed List.mem_cons_self) <| .cons (.opened _ 2 true) <| .cons (.received _ List.mem_cons_self) <|
      .cons (.received _ List.mem_cons_self) <| .nil _⟩
  obtain ⟨d, steps⟩ := steps
  obtain ⟨-, -, resyncs⟩ := line_discipline_run steps
  have long : 527 ≤ (List.replicate 527 (0 : UInt8)).length := Nat.le_of_eq List.length_replicate.symm
  exact ⟨d, steps, resyncs [⟨0, [0x7E]⟩] [⟨0, List.replicate 527 0⟩] _ [measurementSent] rfl (Or.inl ⟨_, rfl, long⟩)
    (transmitted_all _)⟩

end OsLab.Lunix
