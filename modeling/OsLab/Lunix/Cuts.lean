import OsLab.Lunix.ParserRefinement

/-!
# Received buffers

How the cuts between the received buffers show in the sensor updates. The parser drops
what a buffer holds behind the end of a packet, so the cuts are unobservable exactly
when no packet ends before the last byte of the stream.
-/

namespace OsLab.Lunix
open Transducer Decoder

/-- The calls of `lunix_protocol_received_buf` on consecutive buffers. -/
def receiveAll (debug : Bool) (cnt : Int) (s : ProtocolState) (bufs : List (List UInt8)) :
    ProtocolState × List SensorUpdate :=
  feed (lunixProtocolReceivedBuf debug cnt) s bufs

/-- What a build without debugging reaches from `lunix_protocol_init`. -/
def Reachable (cnt : Int) (s : ProtocolState) : Prop :=
  ∃ s₀ bufs, s = (receiveAll false cnt (lunixProtocolInit s₀) bufs).1

/-- The packet that `s` holds so far. -/
def ProtocolState.decoder (s : ProtocolState) : Decoder :=
  ⟨(List.range s.pos).map s.packet, if s.nextIsSpecial = 0 then none else some s.nextIsSpecial⟩

theorem packets_append (d : Decoder) (a b : List UInt8) :
    packets d (a ++ b) = packets d a ++ packets (run step d a).1 b := by
  rw [packets, run_append]
  rfl

theorem Represents.decoder_eq {s : ProtocolState} {d : Decoder} (r : Represents s d) : s.decoder = d := by
  obtain ⟨got, pending⟩ := d
  have bytes : (List.range s.pos).map s.packet = got := by
    apply List.ext_getElem
    · simp [r.pos]
    · intro k _ bound
      have read := r.packet k bound
      simpa [List.getD_eq_getElem?_getD, bound] using read
  have escape : (if s.nextIsSpecial = 0 then none else some s.nextIsSpecial) = pending := by
    have special := r.special
    cases pending with
    | none => rw [special]; rfl
    | some e =>
      have nonzero : e ≠ 0 := by rcases (r.escape e rfl).1 with rfl | rfl <;> decide
      rw [special]
      simp [nonzero]
  rw [ProtocolState.decoder, bytes, escape]

theorem receivedBuf_quiet {s : ProtocolState} {d : Decoder} (r : Represents s d) (a : List UInt8)
    (quiet : packets d a = []) :
    ∃ s', Represents s' (run step d a).1 ∧ ∀ cnt rest,
      lunixProtocolReceivedBuf false cnt s (a ++ rest) = lunixProtocolReceivedBuf false cnt s' rest := by
  induction a generalizing s d with
  | nil => exact ⟨s, r, fun _ _ => rfl⟩
  | cons c a ih =>
    simp only [packets, run_cons, List.append_eq_nil_iff] at quiet
    obtain ⟨s₁, r₁, ⟨-, goes⟩ | ⟨p, held, ends, -⟩⟩ := receivedBuf_step r c
    · obtain ⟨s₂, r₂, rest⟩ := ih r₁ quiet.2
      refine ⟨s₂, r₂, fun cnt tail => ?_⟩
      rw [List.cons_append, goes, rest]
    · rw [quiet.1] at ends
      exact absurd ends (by simp)

/-- The bytes up to the end of the first packet in them. -/
theorem first_packet {d : Decoder} {bytes : List UInt8} (some : packets d bytes ≠ []) :
    ∃ a c rest, bytes = a ++ c :: rest ∧ packets d a = [] ∧ (step (run step d a).1 c).2 ≠ [] := by
  induction bytes generalizing d with
  | nil => exact absurd rfl some
  | cons c bytes ih =>
    by_cases now : (step d c).2 = []
    · have later : packets (step d c).1 bytes ≠ [] := by
        intro empty
        apply some
        simp only [packets, run_cons] at empty ⊢
        rw [now, empty, List.append_nil]
      obtain ⟨a, c', rest, same, quiet, ends⟩ := ih later
      refine ⟨c :: a, c', rest, by rw [same]; rfl, ?_, ends⟩
      simp only [packets, run_cons] at quiet ⊢
      rw [now, quiet, List.append_nil]
    · exact ⟨[], c, bytes, rfl, rfl, now⟩

theorem step_packet {d : Decoder} {c : UInt8} (ends : (step d c).2 ≠ []) : (step d c).1 = start := by
  have pushed : ∀ b, (push d b).2 ≠ [] → (push d b).1 = start := by
    intro b
    unfold push
    split
    · exact fun _ => rfl
    · exact fun h => absurd rfl h
  unfold step at ends ⊢
  split
  · exact pushed c (by simpa [*] using ends)
  · split
    · exact pushed _ (by simpa [*] using ends)
    · split
      · simp_all
      · exact pushed c (by simp_all)

/-- A buffer in which a packet ends leaves the parser at the start of a packet. -/
theorem receivedBuf_packet {s : ProtocolState} {d : Decoder} (r : Represents s d) {a : List UInt8} {c : UInt8}
    (quiet : packets d a = []) (ends : (step (run step d a).1 c).2 ≠ []) :
    ∃ s' p held, Represents s' start ∧ (step (run step d a).1 c).2 = [p] ∧ HoldsPacket held p ∧
      ∀ cnt rest, lunixProtocolReceivedBuf false cnt s (a ++ c :: rest) =
        (s', lunixProtocolUpdateSensors cnt held) := by
  obtain ⟨s₁, r₁, goes⟩ := receivedBuf_quiet r a quiet
  obtain ⟨s₂, r₂, ⟨none, -⟩ | ⟨p, held, packet, holds, done⟩⟩ := receivedBuf_step r₁ c
  · exact absurd none ends
  · rw [step_packet ends] at r₂
    refine ⟨s₂, p, held, r₂, packet, holds, fun cnt rest => ?_⟩
    rw [goes, done]

theorem receivedBuf_represents {s : ProtocolState} {d : Decoder} (r : Represents s d) (cnt : Int)
    (buf : List UInt8) : ∃ d', Represents (lunixProtocolReceivedBuf false cnt s buf).1 d' := by
  by_cases quiet : packets d buf = []
  · obtain ⟨s', r', goes⟩ := receivedBuf_quiet r buf quiet
    have whole := goes cnt []
    rw [List.append_nil, receivedBuf_nil r'.unread] at whole
    exact ⟨_, by rw [whole]; exact r'⟩
  · obtain ⟨a, c, rest, rfl, before, ends⟩ := first_packet quiet
    obtain ⟨s', p, held, r', -, -, done⟩ := receivedBuf_packet r before ends
    exact ⟨start, by rw [done]; exact r'⟩

theorem reachable_represents {cnt : Int} {s : ProtocolState} (reach : Reachable cnt s) :
    Represents s s.decoder := by
  obtain ⟨s₀, bufs, rfl⟩ := reach
  obtain ⟨d, r⟩ := feed_invariant (I := fun s => ∃ d, Represents s d)
    (fun s buf ⟨d, r⟩ => receivedBuf_represents r cnt buf) ⟨start, init_represents s₀⟩ bufs
  rw [show (receiveAll false cnt (lunixProtocolInit s₀) bufs).1.decoder = d from r.decoder_eq]
  exact r

/-- A packet ends in `bytes` before their last byte. -/
def PacketEndsInside (d : Decoder) (bytes : List UInt8) : Prop :=
  ∃ a b, bytes = a ++ b ∧ b ≠ [] ∧ packets d a ≠ []

def OnePacketAtMost (s : ProtocolState) (bytes : List UInt8) : Prop :=
  ∃ d, Represents s d ∧ ¬ PacketEndsInside d bytes

theorem quiet_of_onePacket {d : Decoder} {a b : List UInt8} (one : ¬ PacketEndsInside d (a ++ b))
    (more : b ≠ []) : packets d a = [] := by
  by_contra some
  exact one ⟨a, b, rfl, more, some⟩

theorem receivedBuf_splits (cnt : Int) : Splits (lunixProtocolReceivedBuf false cnt) OnePacketAtMost where
  nil s live := by
    obtain ⟨d, r, -⟩ := live
    exact receivedBuf_nil r.unread
  append s a b live := by
    obtain ⟨d, r, one⟩ := live
    by_cases more : b = []
    · obtain ⟨d', r'⟩ := receivedBuf_represents r cnt a
      rw [more, List.append_nil, receivedBuf_nil r'.unread, List.append_nil]
    · obtain ⟨s', r', goes⟩ := receivedBuf_quiet r a (quiet_of_onePacket one more)
      have whole := goes cnt []
      rw [List.append_nil, receivedBuf_nil r'.unread] at whole
      rw [goes, whole, List.nil_append]
  rest s a b live := by
    obtain ⟨d, r, one⟩ := live
    by_cases more : b = []
    · obtain ⟨d', r'⟩ := receivedBuf_represents r cnt a
      refine ⟨d', r', ?_⟩
      rintro ⟨x, y, same, nonempty, -⟩
      rw [more] at same
      exact nonempty (List.append_eq_nil_iff.mp same.symm).2
    · have quiet := quiet_of_onePacket one more
      obtain ⟨s', r', goes⟩ := receivedBuf_quiet r a quiet
      have whole := goes cnt []
      rw [List.append_nil, receivedBuf_nil r'.unread] at whole
      refine ⟨(run step d a).1, by rw [whole]; exact r', ?_⟩
      rintro ⟨x, y, rfl, nonempty, some⟩
      refine one ⟨a ++ x, y, by rw [List.append_assoc], nonempty, ?_⟩
      rw [packets_append, quiet, List.nil_append]
      exact some

/-- Two cuts of the stream always agree, in the updates and in the final parser state, if
and only if no packet ends before the last byte of the stream. -/
theorem cuts_agree_iff (cnt : Int) (s : ProtocolState) (reach : Reachable cnt s) (stream : List UInt8) :
    (∀ bufs bufs', bufs.flatten = stream → bufs'.flatten = stream →
      receiveAll false cnt s bufs = receiveAll false cnt s bufs') ↔
      ¬ PacketEndsInside s.decoder stream := by
  have r := reachable_represents reach
  constructor
  · rintro agree ⟨a, b, rfl, more, some⟩
    obtain ⟨a₁, c, a₂, rfl, quiet, ends⟩ := first_packet some
    obtain ⟨s', p, held, r', -, -, done⟩ := receivedBuf_packet r quiet ends
    obtain ⟨b₁, last, rfl⟩ := List.eq_nil_or_concat b |>.resolve_left more
    -- One buffer drops everything behind the packet; cutting off the last byte keeps that byte.
    have dropped : receiveAll false cnt s [a₁ ++ c :: (a₂ ++ (b₁ ++ [last]))] =
        (s', lunixProtocolUpdateSensors cnt held) := by
      rw [receiveAll, feed_singleton, done]
    have kept : (receiveAll false cnt s [a₁ ++ c :: (a₂ ++ b₁), [last]]).1 =
        (lunixProtocolReceivedBuf false cnt s' [last]).1 := by
      rw [receiveAll, feed_cons, done, feed_singleton]
    have whole := agree [a₁ ++ c :: (a₂ ++ (b₁ ++ [last]))] [a₁ ++ c :: (a₂ ++ b₁), [last]]
      (by simp) (by simp)
    have states : s' = (lunixProtocolReceivedBuf false cnt s' [last]).1 := by
      rw [← kept, ← whole, dropped]
    obtain ⟨s'', r'', ⟨-, goes⟩ | ⟨p, held, packet, -⟩⟩ := receivedBuf_step r' last
    · rw [goes cnt [], receivedBuf_nil r''.unread] at states
      have pos : s'.pos = s''.pos := congrArg ProtocolState.pos states
      rw [r'.pos, r''.pos] at pos
      simp [start, step, Raw, push, payloadLen] at pos
    · simp [start, step, Raw, push, payloadLen] at packet
  · intro one bufs bufs' flat flat'
    have live : OnePacketAtMost s stream := ⟨s.decoder, r, one⟩
    rw [receiveAll, receiveAll, feed_eq_flatten (receivedBuf_splits cnt) (flat ▸ live),
      feed_eq_flatten (receivedBuf_splits cnt) (flat' ▸ live), flat, flat']

/-- A packet of node 1 with an empty measurement. -/
def nodeOnePacket : List UInt8 := [0x7E, 0, 0, 0, 0x0B, 0, 17, 0, 0, 1, 0] ++ List.replicate 15 0 ++ [0x7E]

/-- The first twelve bytes of the packet have come. -/
def insidePacket : ProtocolState := (receiveAll false 16 (lunixProtocolInit zeroedState) [nodeOnePacket.take 12]).1

theorem insidePacket_decoder : insidePacket.decoder = ⟨nodeOnePacket.take 12, none⟩ := by
  have quiet : packets start (nodeOnePacket.take 12) = [] := by decide
  obtain ⟨s', r', goes⟩ := receivedBuf_quiet (init_represents zeroedState) _ quiet
  have whole := goes 16 []
  rw [List.append_nil, receivedBuf_nil r'.unread] at whole
  rw [insidePacket, receiveAll, feed_singleton, whole]
  exact r'.decoder_eq

/-- The rest of the packet may be cut in any way. -/
theorem cuts_agree_inside :
    insidePacket.decoder.got.length = 12 ∧
      ∀ bufs bufs' : List (List UInt8), bufs.flatten = nodeOnePacket.drop 12 → bufs'.flatten = nodeOnePacket.drop 12 →
        receiveAll false 16 insidePacket bufs = receiveAll false 16 insidePacket bufs' := by
  refine ⟨by rw [insidePacket_decoder]; rfl, ?_⟩
  refine (cuts_agree_iff 16 insidePacket ⟨zeroedState, _, rfl⟩ (nodeOnePacket.drop 12)).mpr ?_
  rw [insidePacket_decoder]
  rintro ⟨a, b, same, more, some⟩
  have before : ∀ n < 15, packets ⟨nodeOnePacket.take 12, none⟩ ((nodeOnePacket.drop 12).take n) = [] := by decide
  have length := congrArg List.length same
  have left := List.length_pos_iff.mpr more
  have short : a.length < 15 := by
    rw [List.length_append] at length
    have total : (nodeOnePacket.drop 12).length = 15 := by decide
    omega
  refine some ((congrArg (packets _) ?_).trans (before a.length short))
  rw [same, List.take_left]

/-- Two packets in one buffer update the sensor once, in two buffers twice. -/
theorem cuts_observable :
    ¬ ∀ (cnt : Int) (s : ProtocolState), Reachable cnt s → ∀ bufs bufs' : List (List UInt8),
      bufs.flatten = bufs'.flatten → receiveAll false cnt s bufs = receiveAll false cnt s bufs' := by
  intro agree
  have same := congrArg (fun r => r.2.length) (agree 16 (lunixProtocolInit zeroedState) ⟨zeroedState, [], rfl⟩
    [nodeOnePacket ++ nodeOnePacket] [nodeOnePacket, nodeOnePacket] (by simp))
  revert same
  decide

end OsLab.Lunix
