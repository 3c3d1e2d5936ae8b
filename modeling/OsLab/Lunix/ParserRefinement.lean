import OsLab.Lunix.Decoder

/-!
# The parser refines the packet structure

`Represents` relates the parser of a build without debugging to the decoder, and
`receivedBuf_step` follows both over one byte.
-/

namespace OsLab.Lunix
open Transducer Decoder

/-- The `set_state` that follows a completed state other than the last one. -/
def advance (s : ProtocolState) : ProtocolState :=
  if s.state = .payloadLength then setState s .payload (s.packet (s.pos - 1)).toNat 0
  else setState s s.state.next.1 s.state.next.2 0

/-! ### One byte of a received buffer -/

theorem consumeByte_state (u : Bool) (s : ProtocolState) (c : UInt8) :
    (consumeByte u s c).state = s.state := by
  unfold consumeByte storeByte
  split_ifs <;> rfl

theorem parseLoop_state (debug u : Bool) (s : ProtocolState) (iter : Nat) (data : List UInt8) :
    (parseLoop debug u s iter data).2.1.state = s.state := by
  induction data generalizing s iter with
  | nil => rfl
  | cons c rest ih =>
    unfold parseLoop
    split_ifs
    · rfl
    · rfl
    · rw [ih, consumeByte_state]
    · rfl

/-- One call with the loop of the current state entered after `iter` rounds. -/
def resume (debug : Bool) (cnt : Int) (iter : Nat) (s : ProtocolState) (data : List UInt8) :
    ProtocolState × List SensorUpdate :=
  match parseLoop debug s.state.specials s iter data with
  | (ret, s', rest) =>
    if ret = 1 then
      if s.state = .endByte then (lunixProtocolInit s', lunixProtocolUpdateSensors cnt s')
      else lunixProtocolReceivedBuf debug cnt (advance s') rest
    else (s', [])

/-- All `if`s of `lunix_protocol_received_buf` but the one of the current state are skipped. -/
theorem receivedBuf_eq (debug : Bool) (cnt : Int) (s : ProtocolState) (data : List UInt8) :
    lunixProtocolReceivedBuf debug cnt s data = resume debug cnt 0 s data := by
  have state := parseLoop_state debug s.state.specials s 0 data
  unfold resume
  generalize parsed : parseLoop debug s.state.specials s 0 data = r at *
  obtain ⟨ret, s', rest⟩ := r
  simp only at state
  by_cases complete : ret = 1 <;> cases here : s.state <;> rw [here] at parsed state <;>
    simp only [Seeking.specials] at parsed <;>
    simp [lunixProtocolReceivedBuf, seek, seekEndByte, lunixProtocolParseState, parsed, complete, here, state, advance,
      setState, Seeking.next, lunixProtocolInit]

section
variable {debug : Bool} {cnt : Int} {iter : Nat} {s : ProtocolState}

theorem resume_nil (unread : s.bytesRead < s.bytesToRead) : resume debug cnt iter s [] = (s, []) := by
  simp [resume, parseLoop, parseResult, Nat.ne_of_lt unread]

theorem resume_cons (unread : s.bytesRead < s.bytesToRead) (room : s.pos ≠ maxPacketLen)
    (few : debug = true → iter + 1 ≠ 50) (c : UInt8) (rest : List UInt8) :
    resume debug cnt iter s (c :: rest) = resume debug cnt (iter + 1) (consumeByte s.state.specials s c) rest := by
  have more : ¬ (debug = true ∧ iter + 1 = 50) := fun ⟨build, last⟩ => few build last
  simp only [resume, parseLoop, if_pos unread, if_neg more, if_neg room, consumeByte_state]

/-- The debugging build leaves the loop in its 50th round. -/
theorem resume_oops (unread : s.bytesRead < s.bytesToRead) (last : iter + 1 = 50) (c : UInt8) (rest : List UInt8) :
    resume true cnt iter s (c :: rest) = (s, []) := by
  simp [resume, parseLoop, unread, last]

theorem parseLoop_done {u : Bool} (done : s.bytesRead = s.bytesToRead) (data : List UInt8) :
    parseLoop debug u s iter data = (1, s, data) := by
  cases data <;> simp [parseLoop, parseResult, done]

theorem resume_done (done : s.bytesRead = s.bytesToRead) (more : s.state ≠ .endByte) (rest : List UInt8) :
    resume debug cnt iter s rest = resume debug cnt 0 (advance s) rest := by
  rw [← receivedBuf_eq]
  simp [resume, parseLoop_done done, more]

theorem resume_end (done : s.bytesRead = s.bytesToRead) (last : s.state = .endByte) (rest : List UInt8) :
    resume debug cnt iter s rest = (lunixProtocolInit s, lunixProtocolUpdateSensors cnt s) := by
  simp [resume, parseLoop_done done, last]

theorem parseLoop_iter (u : Bool) (s : ProtocolState) (i j : Nat) (data : List UInt8) :
    parseLoop false u s i data = parseLoop false u s j data := by
  induction data generalizing s i j with
  | nil => rfl
  | cons c rest ih =>
    simp only [parseLoop, Bool.false_eq_true, false_and, if_false]
    rw [ih _ (i + 1) (j + 1)]

/-- The build without debugging does not count its rounds. -/
theorem resume_release (data : List UInt8) : resume false cnt iter s data = lunixProtocolReceivedBuf false cnt s data := by
  rw [receivedBuf_eq, resume, resume, parseLoop_iter _ _ iter 0]

theorem receivedBuf_nil (unread : s.bytesRead < s.bytesToRead) : lunixProtocolReceivedBuf debug cnt s [] = (s, []) := by
  rw [receivedBuf_eq, resume_nil unread]

end

/-! ### The parser refines the decoder -/

/-- `s` holds the packet that `d` has decoded so far. -/
structure Represents (s : ProtocolState) (d : Decoder) : Prop where
  pos : s.pos = d.got.length
  packet : ∀ k < d.got.length, s.packet k = d.got.getD k 0
  special : s.nextIsSpecial = d.pending.getD 0
  escape : ∀ e, d.pending = some e → (e = 0x7E ∨ e = 0x7D) ∧ ¬ Decoder.Raw d.got
  phase : (s.state, s.bytesToRead, s.bytesRead) = Decoder.phase d.got
  room : d.got.length < 10 + Decoder.payloadLen d.got

theorem Represents.unread {s : ProtocolState} {d : Decoder} (r : Represents s d) :
    s.bytesRead < s.bytesToRead := by
  have h := phase_unread r.room
  rwa [← r.phase] at h

theorem Represents.pos_ne {s : ProtocolState} {d : Decoder} (r : Represents s d) :
    s.pos ≠ maxPacketLen := by
  have bound := payloadLen_lt d.got
  have room := r.room
  rw [r.pos, maxPacketLen]
  omega

theorem init_represents (s : ProtocolState) : Represents (lunixProtocolInit s) start where
  pos := rfl
  packet := by simp [start]
  special := rfl
  escape := by simp [start]
  phase := rfl
  room := by simp [start, payloadLen]

/-- Storing the byte `b` in a state where no escape is pending afterwards. -/
def stored (s : ProtocolState) (b : UInt8) : ProtocolState := { storeByte s b with nextIsSpecial := 0 }

theorem stored_packet {s : ProtocolState} {d : Decoder} (r : Represents s d) (b : UInt8) :
    ∀ k < (d.got ++ [b]).length, (stored s b).packet k = (d.got ++ [b]).getD k 0 := by
  intro k bound
  simp only [List.length_append, List.length_singleton] at bound
  simp only [stored, storeByte, Function.update_apply, r.pos, List.getD_eq_getElem?_getD]
  by_cases last : k = d.got.length
  · simp [last]
  · have old : k < d.got.length := by omega
    rw [if_neg last, List.getElem?_append_left old, r.packet k old, List.getD_eq_getElem?_getD]

/-- The states that hold `got` agree on everything but the phase. -/
theorem represents_of_phase {s : ProtocolState} {d : Decoder} (r : Represents s d) (b : UInt8)
    (state : Seeking) (btr br : Nat) (phase : (state, btr, br) = Decoder.phase (d.got ++ [b]))
    (room : d.got.length + 1 < 10 + payloadLen (d.got ++ [b])) :
    Represents (setState (stored s b) state btr br) ⟨d.got ++ [b], none⟩ where
  pos := by simp [setState, stored, storeByte, r.pos]
  packet := stored_packet r b
  special := rfl
  escape := by simp
  phase := phase
  room := by simpa using room

theorem stored_last {s : ProtocolState} {d : Decoder} (r : Represents s d) (b : UInt8)
    (last : d.got.length + 1 = 10 + payloadLen (d.got ++ [b])) :
    (stored s b).state = .endByte ∧ (stored s b).bytesRead = (stored s b).bytesToRead := by
  have phase := r.phase
  have room := r.room
  rw [payloadLen_push (by omega)] at last
  rw [Decoder.phase, phaseAt_end _ _ (by omega)] at phase
  simp only [Prod.mk.injEq] at phase
  exact ⟨phase.1, by simp only [stored, storeByte]; omega⟩

/-- In either build the parser goes on from `s`, in whatever round, as from `s'`: it is that state,
or the one that it enters from `s`. -/
def Continues (s s' : ProtocolState) : Prop :=
  s' = s ∨ s'.packet = s.packet ∧ s'.state ≠ s.state ∧
    ∀ debug cnt iter rest, resume debug cnt iter s rest = resume debug cnt 0 s' rest

theorem stored_moves {s : ProtocolState} {d : Decoder} (r : Represents s d) (b : UInt8)
    (room : d.got.length + 1 < 10 + payloadLen (d.got ++ [b])) {next : Seeking} {btr : Nat}
    (done : s.bytesRead + 1 = s.bytesToRead) (other : s.state ≠ .endByte) (moves : next ≠ s.state)
    (enters : advance (stored s b) = setState (stored s b) next btr 0)
    (same : phaseAt (d.got.length + 1) (payloadLen (d.got ++ [b])) = (next, btr, 0)) :
    ∃ s', Represents s' ⟨d.got ++ [b], none⟩ ∧ Continues (stored s b) s' := by
  refine ⟨_, represents_of_phase r b next btr 0 (by simpa [Decoder.phase] using same.symm) room,
    Or.inr ⟨rfl, moves, ?_⟩⟩
  intro debug cnt iter rest
  rw [← enters]
  exact resume_done (s := stored s b) done other rest

/-- The payload length has just been read; a packet without payload goes straight to its CRC. -/
theorem stored_length {s : ProtocolState} {d : Decoder} (r : Represents s d) (b : UInt8)
    (six : d.got.length = 6) : ∃ s', Represents s' ⟨d.got ++ [b], none⟩ ∧ Continues (stored s b) s' := by
  have len := payloadLen_push_six six b
  have room : d.got.length + 1 < 10 + payloadLen (d.got ++ [b]) := by omega
  have phase := r.phase
  rw [Decoder.phase, six, payloadLen_short (by omega)] at phase
  simp only [phaseAt, Nat.reduceLT, if_false, if_true, Prod.mk.injEq] at phase
  obtain ⟨state, btr, br⟩ := phase
  have enters : advance (stored s b) = setState (stored s b) .payload b.toNat 0 := by
    simp [advance, stored, storeByte, state]
  by_cases empty : b.toNat = 0
  · refine ⟨_, represents_of_phase r b .crc 2 0 (by simp [Decoder.phase, phaseAt, six, len, empty]) room,
      Or.inr ⟨rfl, by simp [setState, stored, storeByte, state], ?_⟩⟩
    intro debug cnt iter rest
    rw [resume_done (s := stored s b) (by simp [stored, storeByte, btr, br]) (by simp [stored, storeByte, state]),
      enters, resume_done (by simp [setState, empty]) (by simp [setState])]
    rfl
  · exact stored_moves r b room (by omega) (by simp [state]) (by simp [state]) enters
      (by rw [len, six]; simp only [phaseAt]; split_ifs <;> first | omega | rfl)

theorem next_ne {state : Seeking} (other : state ≠ .endByte) : state.next.1 ≠ state := by
  cases state <;> simp [Seeking.next] at other ⊢

theorem stored_next {s : ProtocolState} {d : Decoder} (r : Represents s d) (b : UInt8)
    (more : d.got.length + 1 ≠ 10 + payloadLen (d.got ++ [b])) :
    ∃ s', Represents s' ⟨d.got ++ [b], none⟩ ∧ Continues (stored s b) s' := by
  by_cases six : d.got.length = 6
  · exact stored_length r b six
  have len := payloadLen_push six b
  have room := r.room
  have room' : d.got.length + 1 < 10 + payloadLen (d.got ++ [b]) := by omega
  have phase := r.phase
  rw [Decoder.phase] at phase
  obtain ⟨same, -⟩ | ⟨done, other, last, same⟩ := phaseAt_succ six (by omega : d.got.length + 1 < 10 + payloadLen d.got)
  · rw [← phase, ← len] at same
    exact ⟨stored s b, represents_of_phase r b s.state s.bytesToRead (s.bytesRead + 1)
      (by simpa [Decoder.phase] using same.symm) room', Or.inl rfl⟩
  · rw [← phase] at done other last same
    rw [← len] at same
    exact stored_moves r b room' done last (next_ne last) (by simp [advance, stored, storeByte, other]) same

theorem stored_of_special {s : ProtocolState} (none : s.nextIsSpecial = 0) (b : UInt8) :
    storeByte s b = stored s b := by
  simp [stored, storeByte, none]

/-- A byte either begins an escape or stores one unescaped byte. -/
theorem consume_cases {s : ProtocolState} {d : Decoder} (r : Represents s d) (c : UInt8) :
    (byte d c = none ∧ s.nextIsSpecial = 0 ∧ consumeByte s.state.specials s c = { s with nextIsSpecial := c } ∧
      Represents { s with nextIsSpecial := c } ⟨d.got, some c⟩) ∨
    ∃ b, byte d c = some b ∧ consumeByte s.state.specials s c = stored s b := by
  have specials := phase_specials r.room
  rw [← r.phase] at specials
  have special := r.special
  by_cases raw : Raw d.got
  · have off : s.state.specials = false := by simpa [raw] using specials
    have none : d.pending = none := by
      cases pending : d.pending with
      | none => rfl
      | some e => exact absurd raw (r.escape e pending).2
    rw [none] at special
    exact Or.inr ⟨c, by simp [byte, raw], by
      simp only [consumeByte, off, Bool.false_eq_true, if_false]
      exact stored_of_special special c⟩
  · have on : s.state.specials = true := by simpa [raw] using specials
    cases pending : d.pending with
    | some e =>
      rw [pending] at special
      refine Or.inr ⟨unescape e c, by simp [byte, raw, pending], ?_⟩
      rcases (r.escape e pending).1 with rfl | rfl <;>
        simp [consumeByte, on, special, stored, storeByte, unescape]
    | none =>
      rw [pending] at special
      have zero : s.nextIsSpecial = 0 := special
      by_cases escape : c = 0x7E ∨ c = 0x7D
      · refine Or.inl ⟨by simp [byte, raw, pending, escape], zero, ?_, ?_⟩
        · simp [consumeByte, on, zero, escape]
        · exact ⟨r.pos, r.packet, rfl, fun e same => ⟨Option.some.inj same ▸ escape, raw⟩, r.phase, r.room⟩
      · refine Or.inr ⟨c, by simp [byte, raw, pending, escape], ?_⟩
        simp only [consumeByte, on, if_true, zero, ne_eq, not_true_eq_false, if_false, escape]
        exact stored_of_special zero c

/-- `s` holds the complete packet `p`, and whatever bytes were left behind it. -/
def HoldsPacket (s : ProtocolState) (p : List UInt8) : Prop := ∀ k < p.length, s.packet k = p.getD k 0

/-- No more rounds than raw bytes of the current state. -/
def InRound (s : ProtocolState) (iter : Nat) : Prop := iter ≤ 2 * s.bytesRead + if s.nextIsSpecial = 0 then 0 else 1

/-- The parser over one byte in the round after `iter` others: it goes on with the rest of the buffer,
or the byte ends a packet and the rest of the buffer is dropped. -/
theorem resume_step {s : ProtocolState} {d : Decoder} (r : Represents s d) (iter : Nat) (c : UInt8) :
    ∃ s', Represents s' (Decoder.step d c).1 ∧ s'.packet = Decoder.store d c s.packet ∧
      (((Decoder.step d c).2 = [] ∧ ∃ iter', (iter' = 0 ∧ s'.state ≠ s.state ∨ iter' = iter + 1 ∧ s'.state = s.state) ∧
        (InRound s iter → InRound s' iter') ∧ ∀ debug cnt rest, (debug = true → iter + 1 ≠ 50) →
          resume debug cnt iter s (c :: rest) = resume debug cnt iter' s' rest) ∨
      ∃ p, (Decoder.step d c).2 = [p] ∧ HoldsPacket s' p ∧ ∀ debug cnt rest, (debug = true → iter + 1 ≠ 50) →
        resume debug cnt iter s (c :: rest) = (s', lunixProtocolUpdateSensors cnt s')) := by
  rw [step_eq, Decoder.store]
  rcases consume_cases r c with ⟨escapes, special, consumed, escaped⟩ | ⟨b, decoded, consumed⟩
  · rw [escapes]
    refine ⟨_, escaped, rfl, Or.inl ⟨rfl, iter + 1, Or.inr ⟨rfl, rfl⟩, fun within => ?_, fun debug cnt rest few => ?_⟩⟩
    · have escape : c ≠ 0 := by rcases (escaped.escape c rfl).1 with rfl | rfl <;> decide
      unfold InRound at within ⊢
      rw [if_pos special] at within
      simp only [if_neg escape]
      omega
    · rw [resume_cons r.unread r.pos_ne few, consumed]
  · rw [decoded, ← r.pos]
    simp only [push]
    by_cases last : d.got.length + 1 = 10 + payloadLen (d.got ++ [b])
    · rw [if_pos last]
      obtain ⟨state, done⟩ := stored_last r b last
      refine ⟨_, init_represents (stored s b), rfl, Or.inr ⟨_, rfl, stored_packet r b, fun debug cnt rest few => ?_⟩⟩
      rw [resume_cons r.unread r.pos_ne few, consumed, resume_end done state]
      rfl
    · rw [if_neg last]
      obtain ⟨s', r', same | ⟨memory, other, enters⟩⟩ := stored_next r b last
      · subst same
        refine ⟨_, r', rfl, Or.inl ⟨rfl, iter + 1, Or.inr ⟨rfl, rfl⟩, fun within => ?_, fun debug cnt rest few => ?_⟩⟩
        · unfold InRound at within ⊢
          simp only [stored, storeByte, if_true]
          split_ifs at within <;> omega
        · rw [resume_cons r.unread r.pos_ne few, consumed]
      · refine ⟨s', r', memory, Or.inl ⟨rfl, 0, Or.inl ⟨rfl, other⟩, fun _ => Nat.zero_le _, fun debug cnt rest few => ?_⟩⟩
        rw [resume_cons r.unread r.pos_ne few, consumed, enters]

theorem receivedBuf_step {s : ProtocolState} {d : Decoder} (r : Represents s d) (c : UInt8) :
    ∃ s', Represents s' (Decoder.step d c).1 ∧
      (((Decoder.step d c).2 = [] ∧ ∀ cnt rest,
        lunixProtocolReceivedBuf false cnt s (c :: rest) = lunixProtocolReceivedBuf false cnt s' rest) ∨
      ∃ p held, (Decoder.step d c).2 = [p] ∧ HoldsPacket held p ∧ ∀ cnt rest,
        lunixProtocolReceivedBuf false cnt s (c :: rest) = (s', lunixProtocolUpdateSensors cnt held)) := by
  obtain ⟨s', r', -, ⟨quiet, iter', -, -, goes⟩ | ⟨p, packet, holds, ends⟩⟩ := resume_step r 0 c
  · refine ⟨s', r', Or.inl ⟨quiet, fun cnt rest => ?_⟩⟩
    rw [receivedBuf_eq, goes false cnt rest (by simp), resume_release]
  · refine ⟨s', r', Or.inr ⟨p, s', packet, holds, fun cnt rest => ?_⟩⟩
    rw [receivedBuf_eq, ends false cnt rest (by simp)]

end OsLab.Lunix
