import OsLab.Lunix.Cuts

/-!
# Sending packets

`encode` is the sender's side of the packet structure. The parser undoes it however the
bytes of a packet are cut into buffers.
-/

namespace OsLab.Lunix
open Transducer Decoder

structure XMeshPacket where
  packetType : UInt8
  destinationLow : UInt8
  destinationHigh : UInt8
  amType : UInt8
  amGroup : UInt8
  payload : List UInt8
  crcLow : UInt8
  crcHigh : UInt8
  fits : payload.length ≤ 255

namespace XMeshPacket

/-- What follows the packet type, up to the CRC. -/
def body (p : XMeshPacket) : List UInt8 :=
  [p.destinationLow, p.destinationHigh, p.amType, p.amGroup, UInt8.ofNat p.payload.length] ++
    p.payload ++ [p.crcLow, p.crcHigh]

def bytes (p : XMeshPacket) : List UInt8 := [0x7E, p.packetType] ++ p.body ++ [0x7E]

def escape (b : UInt8) : List UInt8 :=
  if b = 0x7E then [0x7D, 0x5E] else if b = 0x7D then [0x7D, 0x5D] else [b]

def encode (p : XMeshPacket) : List UInt8 := [0x7E, p.packetType] ++ p.body.flatMap escape ++ [0x7E]

/-- The little-endian number at `offset` of the unescaped bytes. -/
def field (p : XMeshPacket) (offset : Nat) : Nat :=
  (p.bytes.getD offset 0).toNat + 256 * (p.bytes.getD (offset + 1) 0).toNat

/-- The updates the packet stands for. -/
def updates (cnt : Int) (p : XMeshPacket) : List SensorUpdate :=
  if p.amType = 0x0B ∧ 1 ≤ p.field 9 ∧ (p.field 9 : Int) ≤ cnt then
    [⟨p.field 9 - 1, UInt16.ofNat (p.field 18), UInt16.ofNat (p.field 20), UInt16.ofNat (p.field 22)⟩]
  else []

theorem body_length (p : XMeshPacket) : p.body.length = 7 + p.payload.length := by
  simp only [body, List.length_append, List.length_cons, List.length_nil]
  omega

theorem bytes_length (p : XMeshPacket) : p.bytes.length = 10 + p.payload.length := by
  simp only [bytes, List.length_append, List.length_cons, List.length_nil, body_length]
  omega

theorem payloadLen_bytes (p : XMeshPacket) (tail : List UInt8) :
    payloadLen ([0x7E, p.packetType] ++ p.body ++ tail) = p.payload.length := by
  have fits := p.fits
  simp only [payloadLen, body, List.cons_append, List.nil_append, List.getD_cons_succ, List.getD_cons_zero,
    UInt8.toNat_ofNat']
  omega

/-! ### The decoder undoes the encoding -/

/-- Escaped or not, a byte inside the packet is decoded to itself. -/
theorem run_escape {got : List UInt8} (inside : ¬ Raw got) (b : UInt8)
    (more : got.length + 1 ≠ 10 + payloadLen (got ++ [b])) :
    run step ⟨got, none⟩ (escape b) = (⟨got ++ [b], none⟩, []) := by
  have pushed : push ⟨got, none⟩ b = (⟨got ++ [b], none⟩, []) := by simp [push, more]
  have pushed' : ∀ e, push ⟨got, some e⟩ b = (⟨got ++ [b], none⟩, []) := fun e => by simp [push, more]
  unfold escape
  split_ifs with flag esc
  · subst flag
    simpa [run_cons, step, inside, unescape, show (0x5E : UInt8) ^^^ 0x20 = 0x7E by decide] using pushed' 0x7D
  · subst esc
    simpa [run_cons, step, inside, unescape, show (0x5D : UInt8) ^^^ 0x20 = 0x7D by decide] using pushed' 0x7D
  · simp [run_cons, step, inside, flag, esc, pushed]

theorem run_inside {got rest : List UInt8} (header : 2 ≤ got.length) (long : 7 ≤ (got ++ rest).length)
    (total : (got ++ rest).length = 9 + payloadLen (got ++ rest)) :
    run step ⟨got, none⟩ (rest.flatMap escape) = (⟨got ++ rest, none⟩, []) := by
  induction rest generalizing got with
  | nil => simp
  | cons b rest ih =>
    have short : got.length < (got ++ b :: rest).length := by simp
    have agree : ∀ k, k < got.length + 1 → (got ++ b :: rest).getD k 0 = (got ++ [b]).getD k 0 := by
      intro k bound
      simp only [List.getD_eq_getElem?_getD]
      rw [show got ++ b :: rest = (got ++ [b]) ++ rest by simp, List.getElem?_append_left (by simpa using bound)]
    have inside : ¬ Raw got := by
      intro raw
      rcases raw with raw | raw
      · omega
      · have same : payloadLen got = payloadLen (got ++ b :: rest) := by
          simp only [payloadLen, List.getD_eq_getElem?_getD]
          rw [List.getElem?_append_left (by omega)]
        omega
    have more : got.length + 1 ≠ 10 + payloadLen (got ++ [b]) := by
      intro last
      have same : payloadLen (got ++ [b]) = payloadLen (got ++ b :: rest) := by
        simp only [payloadLen]
        rw [agree 6 (by omega)]
      simp only [List.length_append, List.length_cons] at short total
      omega
    rw [List.flatMap_cons, run_append, run_escape inside b more]
    have rest' := @ih (got ++ [b]) (by simp; omega) (by simpa using long) (by simpa using total)
    simp [rest']

theorem run_body (p : XMeshPacket) :
    run step start ([0x7E, p.packetType] ++ p.body.flatMap escape) =
      (⟨[0x7E, p.packetType] ++ p.body, none⟩, []) := by
  have first : run step start [0x7E, p.packetType] = (⟨[0x7E, p.packetType], none⟩, []) := by
    simp [run_cons, step, start, Raw, push, payloadLen]
  have len := payloadLen_bytes p []
  rw [List.append_nil] at len
  rw [run_append, first, run_inside (by simp) (by simp [body_length]; omega)
    (by rw [len]; simp [body_length]; omega)]
  rfl

theorem step_end (p : XMeshPacket) :
    step ⟨[0x7E, p.packetType] ++ p.body, none⟩ 0x7E = (start, [p.bytes]) := by
  have len := payloadLen_bytes p []
  rw [List.append_nil] at len
  have raw : Raw ([0x7E, p.packetType] ++ p.body) := Or.inr (by rw [len]; simp [body_length]; omega)
  have last : ([0x7E, p.packetType] ++ p.body).length + 1 =
      10 + payloadLen ([0x7E, p.packetType] ++ p.body ++ [0x7E]) := by
    rw [payloadLen_bytes]; simp [body_length]; omega
  simp only [step, raw, if_true, push, last]
  rfl

theorem encode_quiet {p : XMeshPacket} {a b : List UInt8} (cut : p.encode = a ++ b) (more : b ≠ []) :
    packets start a = [] := by
  obtain ⟨b, last, rfl⟩ := List.eq_nil_or_concat b |>.resolve_left more
  rw [List.concat_eq_append, ← List.append_assoc, encode] at cut
  have before := (List.append_inj' cut rfl).1
  have quiet : packets start (a ++ b) = [] := by rw [← before, packets, run_body]
  rw [packets_append] at quiet
  exact (List.append_eq_nil_iff.mp quiet).1

theorem encode_onePacket (p : XMeshPacket) : ¬ PacketEndsInside start p.encode := by
  rintro ⟨a, b, cut, more, some⟩
  exact some (encode_quiet cut more)

/-! ### The updates of a packet -/

end XMeshPacket

theorem uint16FromPacket_toNat (packet : Nat → UInt8) (offset : Nat) :
    (uint16FromPacket packet offset).toNat = (packet offset).toNat + 256 * (packet (offset + 1)).toNat := by
  have low := (packet offset).toNat_lt
  have high := (packet (offset + 1)).toNat_lt
  simp only [uint16FromPacket, UInt16.toNat_or, UInt16.toNat_shiftLeft, UInt8.toNat_toUInt16]
  rw [show (8 : UInt16).toNat % 16 = 8 by decide, Nat.shiftLeft_eq, Nat.mod_eq_of_lt (by omega), Nat.or_comm,
    Nat.mul_comm, ← Nat.two_pow_add_eq_or_of_lt low]
  omega

theorem uint16FromPacket_field {held : ProtocolState} {p : XMeshPacket} (holds : HoldsPacket held p.bytes)
    {offset : Nat} (inside : offset + 1 < p.bytes.length) :
    (uint16FromPacket held.packet offset).toNat = p.field offset := by
  rw [uint16FromPacket_toNat, holds offset (by omega), holds (offset + 1) inside]
  rfl

/-- Only a packet of AM type `0x0B` is read beyond its AM type. -/
theorem updateSensors_eq {cnt : Int} {held : ProtocolState} {p : XMeshPacket}
    (holds : HoldsPacket held p.bytes) (long : p.amType = 0x0B → 17 ≤ p.payload.length) :
    lunixProtocolUpdateSensors cnt held = p.updates cnt := by
  have length := p.bytes_length
  have signature : held.packet packetSignatureOffset = p.amType := by
    rw [holds packetSignatureOffset (by unfold packetSignatureOffset; omega)]
    rfl
  unfold lunixProtocolUpdateSensors XMeshPacket.updates
  rw [signature]
  by_cases sensor : p.amType = 0x0B
  · have fits := long sensor
    have word : ∀ offset, offset + 1 < p.bytes.length →
        uint16FromPacket held.packet offset = UInt16.ofNat (p.field offset) := fun offset inside => by
      rw [← uint16FromPacket_field holds inside, UInt16.ofNat_toNat]
    have node := @uint16FromPacket_field _ _ holds 9 (by omega)
    have positive : uint16FromPacket held.packet 9 > 0 ↔ 1 ≤ p.field 9 := by
      rw [gt_iff_lt, UInt16.lt_iff_toNat_lt, node]
      rfl
    simp only [nodeOffset, vrefOffset, temperatureOffset, lightOffset, sensor, true_and, if_true, positive, node]
    rw [word 18 (by omega), word 20 (by omega), word 22 (by omega)]
  · simp [sensor]

/-! ### Packets cut into buffers -/

/-- The parser's position between two packets. -/
def Idle (s : ProtocolState) : Prop :=
  s.state = .startByte ∧ s.pos = 0 ∧ s.bytesRead = 0 ∧ s.nextIsSpecial = 0

theorem idle_of_represents {s : ProtocolState} (r : Represents s start) : Idle s := by
  have phase := r.phase
  simp only [Decoder.phase, start, phaseAt, List.length_nil, Nat.zero_lt_one, if_true, Prod.mk.injEq] at phase
  exact ⟨phase.1, r.pos, phase.2.2, r.special⟩

/-- The buffers of each packet in turn: the state after it and its updates. -/
def deliver (cnt : Int) (s : ProtocolState) : List (List (List UInt8)) → List (ProtocolState × List SensorUpdate)
  | [] => []
  | bufs :: rest =>
    receiveAll false cnt s bufs :: deliver cnt (receiveAll false cnt s bufs).1 rest

theorem receiveAll_packet {cnt : Int} {s : ProtocolState} (r : Represents s start) {p : XMeshPacket}
    (long : p.amType = 0x0B → 17 ≤ p.payload.length) {bufs : List (List UInt8)}
    (cut : bufs.flatten = p.encode) :
    Represents (receiveAll false cnt s bufs).1 start ∧ (receiveAll false cnt s bufs).2 = p.updates cnt := by
  have whole : receiveAll false cnt s bufs = lunixProtocolReceivedBuf false cnt s p.encode := by
    rw [← cut]
    exact feed_eq_flatten (receivedBuf_splits cnt) ⟨start, r, cut ▸ p.encode_onePacket⟩
  have quiet : packets start ([0x7E, p.packetType] ++ p.body.flatMap XMeshPacket.escape) = [] := by
    rw [packets, XMeshPacket.run_body]
  have ended : step (run step start ([0x7E, p.packetType] ++ p.body.flatMap XMeshPacket.escape)).1 0x7E =
      (start, [p.bytes]) := by
    rw [XMeshPacket.run_body, XMeshPacket.step_end]
  obtain ⟨s', packet, held, r', same, holds, done⟩ := receivedBuf_packet r quiet (by rw [ended]; simp)
  rw [ended] at same
  obtain rfl := List.singleton_inj.mp same
  rw [whole, XMeshPacket.encode, done cnt []]
  exact ⟨r', updateSensors_eq holds long⟩

/-- The parser recovers every packet, whatever the cuts inside the packets: it is between
two packets after each of them and has made the updates the packet stands for. -/
theorem packets_delivered (cnt : Int) (s₀ : ProtocolState) (ps : List XMeshPacket)
    (long : ∀ p ∈ ps, p.amType = 0x0B → 17 ≤ p.payload.length) (bufs : List (List (List UInt8)))
    (cut : bufs.map List.flatten = ps.map XMeshPacket.encode) :
    List.Forall₂ (fun p result => Idle result.1 ∧ result.2 = p.updates cnt) ps
      (deliver cnt (lunixProtocolInit s₀) bufs) := by
  have run : ∀ s, Represents s start → List.Forall₂ (fun p result => Idle result.1 ∧ result.2 = p.updates cnt)
      ps (deliver cnt s bufs) := by
    induction ps generalizing bufs with
    | nil =>
      intro s _
      rw [List.map_eq_nil_iff.mp cut]
      exact .nil
    | cons p ps ih =>
      intro s r
      obtain ⟨bufs₁, rest, rfl, first, others⟩ := List.map_eq_cons_iff.mp cut
      obtain ⟨r', updates⟩ := @receiveAll_packet cnt _ r p (long p List.mem_cons_self) _ first
      exact .cons ⟨idle_of_represents r', updates⟩
        (ih (fun p member => long p (List.mem_cons_of_mem _ member)) rest others _ r')
  exact run _ (init_represents s₀)

/-- A measurement of node 1 whose first value is an escaped `0x7E`. -/
def measurementPacket : XMeshPacket :=
  ⟨0, 0, 0, 0x0B, 0, [0, 0, 1, 0] ++ List.replicate 7 0 ++ [0x7E, 0, 0x7D, 1, 2, 0], 0, 0, by decide⟩

theorem packets_delivered_escaped :
    List.Forall₂ (fun p result => Idle result.1 ∧ result.2 = p.updates 16) [measurementPacket]
      (deliver 16 (lunixProtocolInit zeroedState)
        [[measurementPacket.encode.take 19, [], measurementPacket.encode.drop 19]]) :=
  packets_delivered 16 zeroedState [measurementPacket] (by decide)
    [[measurementPacket.encode.take 19, [], measurementPacket.encode.drop 19]] (by simp)

example : measurementPacket.updates 16 = [⟨0, 0x7E, 0x17D, 2⟩] := by decide

end OsLab.Lunix
