import OsLab.Lunix.StaleBytes

/-!
# Packet delimiters

`SEEKING_START_BYTE` and `SEEKING_END_BYTE` take whatever byte comes. Streams that bring
0x7E there are parsed by the documented frames.
-/

namespace OsLab.Lunix
open Transducer Decoder

/-- Every byte taken where a delimiter is due is 0x7E. -/
def Delimited (d : Decoder) : List UInt8 → Prop
  | [] => True
  | c :: rest =>
    ((phase d.got).1 = .startByte ∨ (phase d.got).1 = .endByte → c = 0x7E) ∧ Delimited (step d c).1 rest

instance decidableDelimited : (d : Decoder) → (bytes : List UInt8) → Decidable (Delimited d bytes)
  | _, [] => .isTrue trivial
  | d, c :: rest =>
    have := decidableDelimited (step d c).1 rest
    inferInstanceAs (Decidable (_ ∧ _))

/-- The update comes from a packet of which the first and the last raw byte are 0x7E. -/
def FromFrame (cnt : Int) (bytes : List UInt8) (u : SensorUpdate) : Prop :=
  ∃ before frame after p packet, bytes = before ++ frame ++ after ∧ (run step start before).1 = start ∧
    run step start frame = (start, [p]) ∧ frame.head? = some 0x7E ∧ frame.getLast? = some 0x7E ∧
    Knows p packet ∧ u ∈ updatesFrom cnt packet

theorem Delimited.append {d : Decoder} {a b : List UInt8} (delimited : Delimited d (a ++ b)) :
    Delimited d a ∧ Delimited (run step d a).1 b := by
  induction a generalizing d with
  | nil => exact ⟨trivial, delimited⟩
  | cons c a ih =>
    obtain ⟨first, rest⟩ := delimited
    obtain ⟨left, right⟩ := ih rest
    exact ⟨⟨first, left⟩, right⟩

/-- A packet is completed by its end byte. -/
theorem phase_of_packet {d : Decoder} {c : UInt8} (packet : (step d c).2 ≠ []) : (phase d.got).1 = .endByte := by
  rw [step_eq] at packet
  cases decoded : byte d c with
  | none =>
    rw [decoded] at packet
    exact absurd rfl packet
  | some b =>
    rw [decoded] at packet
    simp only [push] at packet
    by_cases last : d.got.length + 1 = 10 + payloadLen (d.got ++ [b])
    · have other : d.got.length ≠ 6 := by omega
      rw [payloadLen_push other] at last
      rw [phase, phaseAt_end _ _ (by omega)]
    · rw [if_neg last] at packet
      exact absurd rfl packet

/-! ### The updates of delimited streams -/

theorem streamUpdates_quiet {cnt : Int} {d : Decoder} {f : Nat → UInt8} {bytes : List UInt8} (quiet : packets d bytes = []) :
    streamUpdates cnt d f bytes = [] := by
  induction bytes generalizing d f with
  | nil => rfl
  | cons c bytes ih =>
    rw [packets_cons, List.append_eq_nil_iff] at quiet
    rw [streamUpdates_cons, if_pos quiet.1, ih quiet.2, List.append_nil]

theorem streamUpdates_append {cnt : Int} (d : Decoder) (f : Nat → UInt8) (a b : List UInt8) :
    streamUpdates cnt d f (a ++ b) =
      streamUpdates cnt d f a ++ streamUpdates cnt (run step d a).1 (run memoryStep (d, f) a).1.2 b := by
  rw [streamUpdates, run_append, List.flatMap_append, streamUpdates, streamUpdates, ← run_memoryStep d f]

theorem knows_run {d : Decoder} {known : List UInt8} {f : Nat → UInt8} {a : List UInt8} (quiet : packets d a = [])
    (knows : Knows (overlay d.got known) f) :
    Knows (overlay (run step d a).1.got known) (run memoryStep (d, f) a).1.2 := by
  induction a generalizing d f with
  | nil => exact knows
  | cons c a ih =>
    rw [packets_cons, List.append_eq_nil_iff] at quiet
    rcases knows_step knows c with ⟨-, next, -⟩ | ⟨p, packet, -⟩
    · exact ih quiet.2 next
    · rw [packet] at quiet
      cases quiet.1

/-- The first packet of a stream, with the memory that holds it. -/
theorem streamUpdates_packet {cnt : Int} {f : Nat → UInt8} {a : List UInt8} {c : UInt8} (quiet : packets start a = [])
    (ends : (step (run step start a).1 c).2 ≠ []) :
    ∃ p packet, run step start (a ++ [c]) = (start, [p]) ∧ Knows p packet ∧ ∀ rest,
      streamUpdates cnt start f (a ++ c :: rest) = updatesFrom cnt packet ++ streamUpdates cnt start packet rest := by
  have empty : Knows (overlay start.got []) f := fun k inside => absurd inside (Nat.not_lt_zero k)
  have before := knows_run quiet empty
  rcases knows_step before c with ⟨none, -⟩ | ⟨p, packet, knows, -, -⟩
  · exact absurd none ends
  · rw [overlay, List.drop_nil, List.append_nil] at knows
    refine ⟨p, _, ?_, knows, fun rest => ?_⟩
    · have none : (run step start a).2 = [] := quiet
      rw [run_append, run_cons, run_nil, packet, none]
      rfl
    · rw [streamUpdates_append, streamUpdates_quiet quiet, List.nil_append, streamUpdates_cons, if_neg ends, packet]

theorem FromFrame.behind {cnt : Int} {u : SensorUpdate} {a b : List UInt8} (here : (run step start a).1 = start)
    (frame : FromFrame cnt b u) : FromFrame cnt (a ++ b) u := by
  obtain ⟨before, frame, after, p, packet, rfl, back, rest⟩ := frame
  refine ⟨a ++ before, frame, after, p, packet, by simp only [List.append_assoc], ?_, rest⟩
  rw [run_append, here, back]

/-- In a delimited stream every update comes from a frame. -/
theorem delimited_updates {cnt : Int} {bytes : List UInt8} {f : Nat → UInt8} (delimited : Delimited start bytes) :
    ∀ u ∈ streamUpdates cnt start f bytes, FromFrame cnt bytes u := by
  induction n : bytes.length using Nat.strong_induction_on generalizing bytes f with
  | _ n ih =>
  subst n
  by_cases none : packets start bytes = []
  · rw [streamUpdates_quiet none]
    exact fun u member => absurd member List.not_mem_nil
  · obtain ⟨a, c, rest, rfl, quiet, ends⟩ := first_packet none
    obtain ⟨p, packet, complete, knows, updates⟩ := @streamUpdates_packet cnt f a c quiet ends
    have whole : a ++ c :: rest = (a ++ [c]) ++ rest := by rw [List.append_assoc]; rfl
    obtain ⟨inside, behind⟩ := Delimited.append (whole ▸ delimited)
    have last : c = 0x7E := (Delimited.append inside).2.1 (Or.inr (phase_of_packet ends))
    have first : (a ++ [c]).head? = some 0x7E := by
      cases a with
      | nil => rw [last]; rfl
      | cons b a => exact congrArg some (inside.1 (Or.inl rfl))
    rw [updates rest]
    intro u member
    rcases List.mem_append.mp member with here | later
    · refine ⟨[], a ++ [c], rest, p, packet, whole, rfl, complete, first, ?_, knows, here⟩
      rw [List.getLast?_concat, last]
    · rw [whole]
      rw [complete] at behind
      have fewer : rest.length < (a ++ c :: rest).length := by simp only [List.length_append, List.length_cons]; omega
      exact FromFrame.behind (by rw [complete]) (ih rest.length fewer behind rfl u later)

/-! ### One byte per buffer -/

theorem taken_singleton (debug : Bool) (d : Decoder) (c : UInt8) : taken debug d 0 [c] = [c] := by
  by_cases quiet : (step d c).2 = []
  · rw [taken_quiet (by simp) quiet]
    rfl
  · exact taken_last (by simp) quiet

theorem takenAll_singletons (debug : Bool) (d : Decoder) (bytes : List UInt8) :
    takenAll debug d (bytes.map fun c => [c]) = bytes := by
  induction bytes generalizing d with
  | nil => rfl
  | cons c bytes ih => rw [List.map_cons, takenAll, taken_singleton, ih]; rfl

/-- A frame of which the first byte finds the parser between two packets gives its updates, in either build. -/
theorem frame_updates (debug : Bool) (cnt : Int) {s : ProtocolState} (r : Represents s start) (p : XMeshPacket)
    (long : p.amType = 0x0B → 17 ≤ p.payload.length) :
    (receiveAll debug cnt s (p.encode.map fun c => [c])).2 = p.updates cnt := by
  have flat : (p.encode.map fun c => [c]).flatten = p.encode := by simp [← List.flatMap_def]
  rw [← (receiveAll_packet r long flat).2, receiveAll_updates debug cnt r, receiveAll_updates false cnt r,
    takenAll_singletons, takenAll_singletons]

/-- When the byte that comes where a delimiter is due is always 0x7E, every update comes from a frame, and a
frame is not missed for what comes before it. -/
theorem frame_grammar (debug : Bool) (cnt : Int) (s₀ : ProtocolState) :
    (∀ bufs, Delimited start (takenAll debug start bufs) →
      ∀ u ∈ (receiveAll debug cnt (lunixProtocolInit s₀) bufs).2, FromFrame cnt (takenAll debug start bufs) u) ∧
    ∀ (noise : List UInt8) (p : XMeshPacket), 0x7E ∉ noise → p.amType = 0x0B → 17 ≤ p.payload.length →
      1 ≤ p.field nodeOffset → (p.field nodeOffset : Int) ≤ cnt → Delimited start (noise ++ p.encode) →
      (receiveAll debug cnt (lunixProtocolInit s₀) ((noise ++ p.encode).map fun c => [c])).2 =
        [⟨p.field nodeOffset - 1, UInt16.ofNat (p.field vrefOffset), UInt16.ofNat (p.field temperatureOffset),
          UInt16.ofNat (p.field lightOffset)⟩] := by
  have r := init_represents s₀
  constructor
  · intro bufs delimited
    rw [receiveAll_updates debug cnt r]
    exact delimited_updates delimited
  · intro noise p clean sensor long low high delimited
    have none : noise = [] := by
      cases noise with
      | nil => rfl
      | cons c noise => exact absurd (delimited.1 (Or.inl rfl) ▸ List.mem_cons_self) clean
    rw [none, List.nil_append, frame_updates debug cnt r p fun _ => long]
    exact if_pos ⟨sensor, low, high⟩

theorem frame_grammar_measurement :
    (receiveAll true 16 (lunixProtocolInit zeroedState) (measurementPacket.encode.map fun c => [c])).2 =
      [⟨0, 0x7E, 0x17D, 2⟩] ∧ FromFrame 16 measurementPacket.encode ⟨0, 0x7E, 0x17D, 2⟩ := by
  obtain ⟨sound, complete⟩ := frame_grammar true 16 zeroedState
  have update := complete [] measurementPacket (by decide) (by decide) (by decide) (by decide) (by decide) (by decide)
  rw [List.nil_append] at update
  have taken := takenAll_singletons true start measurementPacket.encode
  have frames := sound (measurementPacket.encode.map fun c => [c]) (by rw [taken]; decide)
  rw [taken, update] at frames
  exact ⟨update, frames _ List.mem_cons_self⟩

/-- A packet between two bytes that are no delimiters. -/
def undelimited : List UInt8 := [1, 0, 0, 0, 0x0B, 0, 17, 0, 0, 1, 0] ++ List.replicate 15 0 ++ [1]

/-- The undelimited packet updates the sensor, and one byte of noise makes the parser miss a frame. -/
theorem delimiters_unchecked :
    (¬ ∀ (debug : Bool) (cnt : Int) (s₀ : ProtocolState) (bufs : List (List UInt8)),
      ∀ u ∈ (receiveAll debug cnt (lunixProtocolInit s₀) bufs).2, FromFrame cnt (takenAll debug start bufs) u) ∧
    ¬ ∀ (debug : Bool) (cnt : Int) (s₀ : ProtocolState) (noise : List UInt8) (p : XMeshPacket), 0x7E ∉ noise →
      p.amType = 0x0B → 17 ≤ p.payload.length → 1 ≤ p.field nodeOffset → (p.field nodeOffset : Int) ≤ cnt →
      (receiveAll debug cnt (lunixProtocolInit s₀) ((noise ++ p.encode).map fun c => [c])).2 =
        [⟨p.field nodeOffset - 1, UInt16.ofNat (p.field vrefOffset), UInt16.ofNat (p.field temperatureOffset),
          UInt16.ofNat (p.field lightOffset)⟩] := by
  constructor
  · intro sound
    obtain ⟨before, frame, after, p, packet, whole, -, -, first, -⟩ :=
      sound false 16 zeroedState [undelimited] ⟨0, 0, 0, 0⟩ (by decide)
    have stray : (0x7E : UInt8) ∈ takenAll false start [undelimited] := by
      rw [whole]
      exact List.mem_append_left _ (List.mem_append_right _ (List.mem_of_head? first))
    revert stray
    decide
  · intro resync
    have update := resync false 16 zeroedState [0] measurementPacket (by decide) (by decide) (by decide) (by decide) (by decide)
    revert update
    decide

end OsLab.Lunix
