import OsLab.Lunix.Encoding
import OsLab.Lunix.Freshness
import OsLab.Lunix.MinorNumbers

/-!
# The serial line

What the buffers of the line discipline make of the sensors. Packets that share no buffer reach the
sensors of their nodes, each with the second in which its last byte came.
-/

namespace OsLab.Lunix
open Transducer Decoder

/-! ### Updates -/

/-- An update with the index of its sensor. -/
def made (seconds : Nat) (u : SensorUpdate) : Nat × Measurement := (u.sensor, ⟨seconds, u.batt, u.temp, u.light⟩)

/-- A buffer, with the updates that are made for it. -/
def emit (cnt : Nat) (s : ProtocolState) (arrival : Arrival) : ProtocolState × List (Nat × Measurement) :=
  let received := lunixProtocolReceivedBuf false cnt s arrival.buf
  (received.1, received.2.map (made arrival.seconds))

theorem emit_eq {cnt : Nat} {s s' : ProtocolState} {arrival : Arrival} {us : List SensorUpdate}
    (received : lunixProtocolReceivedBuf false cnt s arrival.buf = (s', us)) :
    emit cnt s arrival = (s', us.map (made arrival.seconds)) := by
  simp only [emit, received]

/-- The updates of one sensor. -/
def history (sensor : Nat) (updates : List (Nat × Measurement)) : List Measurement :=
  updates.filterMap fun u => if u.1 = sensor then some u.2 else none

theorem history_append (sensor : Nat) (a b : List (Nat × Measurement)) :
    history sensor (a ++ b) = history sensor a ++ history sensor b := List.filterMap_append

/-- A page after its last update. -/
def pageOf (m : Option Measurement) (type : Nat) : MsrPage :=
  ⟨lunixMsrMagic, stamp m, match m with
    | none => 0
    | some m => (m.raw type).toUInt32⟩

section
variable {cnt : Nat}

/-- The pages hold the last update of each sensor. -/
def Shows (updates : List (Nat × Measurement)) (sensors : Fin cnt → SensorPages) : Prop :=
  ∀ i type, sensors i type = pageOf (history i updates).getLast? type

theorem shows_init (state : ProtocolState) : Shows [] (Device.init cnt state).sensors := fun _ _ => rfl

variable {updates : List (Nat × Measurement)} {sensors : Fin cnt → SensorPages}

theorem Shows.narrow (shows : Shows updates sensors) : Narrow sensors := by
  intro i type
  rw [shows i type]
  unfold pageOf
  cases (history i updates).getLast? with
  | none => exact Nat.zero_lt_succ _
  | some m =>
    simp only [UInt16.toNat_toUInt32]
    exact UInt16.toNat_lt _

theorem Shows.update (shows : Shows updates sensors) (seconds : Nat) {u : SensorUpdate} (range : u.sensor < cnt) :
    ∃ sensors', updateSensor seconds sensors u = .ok sensors' ∧ Shows (updates ++ [made seconds u]) sensors' := by
  unfold updateSensor
  rw [Bounds.access_ok range]
  refine ⟨_, rfl, fun i type => ?_⟩
  rw [history_append]
  by_cases here : i.1 = u.sensor
  · have one : history i [made seconds u] = [⟨seconds, u.batt, u.temp, u.light⟩] := by simp [history, made, here]
    rw [one, List.getLast?_concat]
    simp only [here, if_true]
    rfl
  · have none : history i [made seconds u] = [] := by simp [history, made, Ne.symm here]
    rw [none, List.append_nil]
    simp only [here, if_false]
    exact shows i type

theorem Shows.updateAll (shows : Shows updates sensors) (seconds : Nat) {us : List SensorUpdate}
    (range : ∀ u ∈ us, u.sensor < cnt) :
    ∃ sensors', us.foldlM (updateSensor seconds) sensors = .ok sensors' ∧
      Shows (updates ++ us.map (made seconds)) sensors' := by
  induction us generalizing updates sensors with
  | nil => exact ⟨sensors, rfl, by rwa [List.map_nil, List.append_nil]⟩
  | cons u us ih =>
    obtain ⟨next, one, shows⟩ := shows.update seconds (range u List.mem_cons_self)
    obtain ⟨last, rest, shows⟩ := ih shows fun u later => range u (List.mem_cons_of_mem _ later)
    refine ⟨last, ?_, by rwa [List.append_assoc] at shows⟩
    rw [List.foldlM_cons, one]
    exact rest

theorem receive_shows {d : Device cnt} (shows : Shows updates d.sensors) (arrival : Arrival) :
    ∃ d', receive false d arrival = .ok d' ∧ d'.protocol = (emit cnt d.protocol arrival).1 ∧
      Shows (updates ++ (emit cnt d.protocol arrival).2) d'.sensors := by
  rcases received : lunixProtocolReceivedBuf false cnt d.protocol arrival.buf with ⟨protocol, us⟩
  have range : ∀ u ∈ us, u.sensor < cnt := by
    intro u member
    have member : u ∈ (lunixProtocolReceivedBuf false cnt d.protocol arrival.buf).2 := by rw [received]; exact member
    exact_mod_cast receivedBuf_range member
  obtain ⟨sensors, updated, shows⟩ := shows.updateAll arrival.seconds range
  refine ⟨⟨protocol, sensors⟩, ?_, by rw [emit_eq received], by rw [emit_eq received]; exact shows⟩
  unfold receive
  rw [received]
  simp only [updated]
  rfl

end

/-! ### Transmissions -/

/-- A packet in the buffers it comes in. The buffer of its last byte holds nothing of another packet. -/
structure Transmission where
  packet : XMeshPacket
  early : List Arrival
  last : Arrival
  cut : (early.map Arrival.buf).flatten ++ last.buf = packet.encode
  ends : last.buf ≠ []
  long : packet.amType = 0x0B → 17 ≤ packet.payload.length

namespace Transmission

def arrivals (t : Transmission) : List Arrival := t.early ++ [t.last]

/-- The measurement of a packet from a node that has a sensor. -/
def measured (cnt : Nat) (t : Transmission) : List (Nat × Measurement) :=
  (t.packet.updates cnt).map (made t.last.seconds)

end Transmission

/-- Whole packets, and the first bytes of another one. -/
def Transmitted (ts : List Transmission) (arrivals : List Arrival) : Prop :=
  ∃ begun p rest, arrivals = ts.flatMap Transmission.arrivals ++ begun ∧
    (begun.map Arrival.buf).flatten ++ rest = XMeshPacket.encode p ∧ rest ≠ []

section
variable (cnt : Nat) {s : ProtocolState} {d : Decoder}

theorem emit_quiet (r : Represents s d) {arrival : Arrival} (quiet : packets d arrival.buf = []) :
    (emit cnt s arrival).2 = [] ∧ Represents (emit cnt s arrival).1 (run step d arrival.buf).1 := by
  obtain ⟨s', r', goes⟩ := receivedBuf_quiet r arrival.buf quiet
  have whole := goes cnt []
  rw [List.append_nil, receivedBuf_nil r'.unread] at whole
  rw [emit_eq whole]
  exact ⟨rfl, r'⟩

/-- Bytes in which no packet ends make no update. -/
theorem emits_quiet (r : Represents s d) {arrivals : List Arrival}
    (quiet : packets d (arrivals.map Arrival.buf).flatten = []) :
    (run (emit cnt) s arrivals).2 = [] ∧
      Represents (run (emit cnt) s arrivals).1 (run step d (arrivals.map Arrival.buf).flatten).1 := by
  induction arrivals generalizing s d with
  | nil => exact ⟨rfl, r⟩
  | cons arrival arrivals ih =>
    rw [List.map_cons, List.flatten_cons, packets_append, List.append_eq_nil_iff] at quiet
    obtain ⟨none, r'⟩ := emit_quiet cnt r quiet.1
    obtain ⟨rest, last⟩ := ih r' quiet.2
    rw [run_cons, List.map_cons, List.flatten_cons, run_append]
    exact ⟨by rw [none, rest]; rfl, last⟩

theorem receiveAll_append (s : ProtocolState) (a b : List (List UInt8)) :
    receiveAll false cnt s (a ++ b) = ((receiveAll false cnt (receiveAll false cnt s a).1 b).1,
      (receiveAll false cnt s a).2 ++ (receiveAll false cnt (receiveAll false cnt s a).1 b).2) := by
  induction a generalizing s with
  | nil => rfl
  | cons buf a ih =>
    simp only [receiveAll, List.cons_append, feed_cons] at ih ⊢
    rw [ih, List.append_assoc]

theorem emits_receiveAll (s : ProtocolState) (arrivals : List Arrival) :
    (run (emit cnt) s arrivals).1 = (receiveAll false cnt s (arrivals.map Arrival.buf)).1 ∧
      (run (emit cnt) s arrivals).2.length = (receiveAll false cnt s (arrivals.map Arrival.buf)).2.length := by
  induction arrivals generalizing s with
  | nil => exact ⟨rfl, rfl⟩
  | cons arrival arrivals ih =>
    rcases received : lunixProtocolReceivedBuf false cnt s arrival.buf with ⟨s', us⟩
    obtain ⟨state, count⟩ := ih s'
    rw [receiveAll] at state count
    rw [run_cons, emit_eq received, List.map_cons, receiveAll, feed_cons, received]
    exact ⟨state, by rw [List.length_append, List.length_append, List.length_map, count]⟩

theorem emits_transmission (r : Represents s start) (t : Transmission) :
    (run (emit cnt) s t.arrivals).2 = t.measured cnt ∧ Represents (run (emit cnt) s t.arrivals).1 start := by
  have cut : (t.arrivals.map Arrival.buf).flatten = t.packet.encode := by
    rw [Transmission.arrivals, List.map_append, List.flatten_append, ← t.cut]
    simp
  obtain ⟨r', all⟩ := @receiveAll_packet cnt s r t.packet t.long _ cut
  refine ⟨?_, by rw [(emits_receiveAll cnt s _).1]; exact r'⟩
  -- the early buffers make no update, so that the last one makes all of them
  obtain ⟨none, -⟩ := emits_quiet cnt r (XMeshPacket.encode_quiet t.cut.symm t.ends)
  obtain ⟨state, count⟩ := emits_receiveAll cnt s t.early
  have nothing : (receiveAll false cnt s (t.early.map Arrival.buf)).2 = [] :=
    List.length_eq_zero_iff.mp (by rw [← count, none]; rfl)
  rw [Transmission.arrivals, List.map_append, receiveAll_append, nothing, List.nil_append, List.map_cons, List.map_nil,
    receiveAll, receiveAll, feed_singleton, ← receiveAll, ← state] at all
  rcases received : lunixProtocolReceivedBuf false cnt (run (emit cnt) s t.early).1 t.last.buf with ⟨s', us⟩
  rw [received] at all
  rw [Transmission.arrivals, run_append, none, List.nil_append, run_cons, run_nil, List.append_nil, emit_eq received,
    Transmission.measured, ← all]

theorem emits_transmissions (r : Represents s start) (ts : List Transmission) :
    (run (emit cnt) s (ts.flatMap Transmission.arrivals)).2 = ts.flatMap (Transmission.measured cnt) ∧
      Represents (run (emit cnt) s (ts.flatMap Transmission.arrivals)).1 start := by
  induction ts generalizing s with
  | nil => exact ⟨rfl, r⟩
  | cons t ts ih =>
    obtain ⟨measured, r'⟩ := emits_transmission cnt r t
    obtain ⟨others, last⟩ := ih r'
    rw [List.flatMap_cons, List.flatMap_cons, run_append, measured, others]
    exact ⟨rfl, last⟩

/-- The updates of the sensors are the measurements of the packets. -/
theorem emits_transmitted (r : Represents s start) {ts : List Transmission} {arrivals : List Arrival}
    (sent : Transmitted ts arrivals) : (run (emit cnt) s arrivals).2 = ts.flatMap (Transmission.measured cnt) := by
  obtain ⟨begun, p, rest, rfl, cut, more⟩ := sent
  obtain ⟨measured, r'⟩ := emits_transmissions cnt r ts
  obtain ⟨none, -⟩ := emits_quiet cnt r' (XMeshPacket.encode_quiet cut.symm more)
  rw [run_append, measured, none, List.append_nil]

end

end OsLab.Lunix
