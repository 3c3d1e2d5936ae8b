import OsLab.Foundation.Traced
import OsLab.Lunix.Cuts

/-!
# Positions in the packet

Every state of the parser in a run, also those inside a call: how far the packet is filled, and
what its writes and its read of the payload length take.
-/

namespace OsLab.Lunix
open Transducer Decoder Traced

inductive Moment where
  /-- The head of the loop, or the end of a call. -/
  | state (s : ProtocolState)
  | write (pos : Nat)
  | overflow
  /-- The payload length is read in `after`; the call began in `before` with the given bytes. -/
  | length (before : ProtocolState) (data : List UInt8) (after : ProtocolState)

namespace Tracing

/-- The writes of one round of the loop. -/
def writes (useSpecials : Bool) (state : ProtocolState) (c : UInt8) : List Moment :=
  if useSpecials then
    if state.nextIsSpecial ≠ 0 then
      if state.nextIsSpecial = 0x7E ∨ state.nextIsSpecial = 0x7D then [.write state.pos] else []
    else if c = 0x7E ∨ c = 0x7D then [] else [.write state.pos]
  else [.write state.pos]

def parseLoop (debug useSpecials : Bool) (state : ProtocolState) (iter : Nat) :
    List UInt8 → Traced Moment (Int × ProtocolState × List UInt8)
  | [] => do
    emit (.state state)
    pure (parseResult state, state, [])
  | c :: rest => do
    emit (.state state)
    if state.bytesRead < state.bytesToRead then
      if debug ∧ iter + 1 = 50 then pure (-1, state, c :: rest)
      else if state.pos = maxPacketLen then do
        emit .overflow
        pure (-1, { state with pos := 0 }, c :: rest)
      else do
        emitAll (writes useSpecials state c)
        parseLoop debug useSpecials (consumeByte useSpecials state c) (iter + 1) rest
    else pure (parseResult state, state, c :: rest)

def seek (debug : Bool) (here : Seeking) (useSpecials : Bool) (complete : ProtocolState → ProtocolState)
    (cursor : ProtocolState × List UInt8) : Traced Moment (ProtocolState × List UInt8) :=
  if cursor.1.state = here then do
    let (ret, state, rest) ← parseLoop debug useSpecials cursor.1 0 cursor.2
    if ret = 1 then do
      emitAll (if here = .payloadLength then [.length cursor.1 cursor.2 state] else [])
      pure (complete state, rest)
    else pure (state, rest)
  else pure cursor

def seekEndByte (debug : Bool) (lunixSensorCnt : Int) (cursor : ProtocolState × List UInt8) :
    Traced Moment (ProtocolState × List SensorUpdate) :=
  if cursor.1.state = .endByte then do
    let (ret, state, _) ← parseLoop debug false cursor.1 0 cursor.2
    if ret = 1 then
      pure (setState { state with pos := 0, nextIsSpecial := 0 } .startByte 1 0,
        lunixProtocolUpdateSensors lunixSensorCnt state)
    else pure (state, [])
  else pure (cursor.1, [])

def lunixProtocolReceivedBuf (debug : Bool) (lunixSensorCnt : Int) (state : ProtocolState) (buf : List UInt8) :
    Traced Moment (ProtocolState × List SensorUpdate) := do
  let cursor ← seek debug .startByte false (setState · .packetType 1 0) (state, buf)
  let cursor ← seek debug .packetType false (setState · .destinationAddress 2 0) cursor
  let cursor ← seek debug .destinationAddress true (setState · .amType 1 0) cursor
  let cursor ← seek debug .amType true (setState · .amGroup 1 0) cursor
  let cursor ← seek debug .amGroup true (setState · .payloadLength 1 0) cursor
  let cursor ← seek debug .payloadLength true
    (fun s => setState s .payload (s.packet (s.pos - 1)).toNat 0) cursor
  let cursor ← seek debug .payload true (setState · .crc 2 0) cursor
  let cursor ← seek debug .crc true (setState · .endByte 1 0) cursor
  let (state, updates) ← seekEndByte debug lunixSensorCnt cursor
  emit (.state state)
  pure (state, updates)

def receiveAll (debug : Bool) (cnt : Int) (s : ProtocolState) :
    List (List UInt8) → Traced Moment (ProtocolState × List SensorUpdate)
  | [] => pure (s, [])
  | buf :: bufs => do
    let (s, now) ← lunixProtocolReceivedBuf debug cnt s buf
    let (s, later) ← receiveAll debug cnt s bufs
    pure (s, now ++ later)

/-! ### The traced functions compute what the others do -/

theorem parseLoop_value (debug u : Bool) (s : ProtocolState) (iter : Nat) (data : List UInt8) :
    (parseLoop debug u s iter data).value = Lunix.parseLoop debug u s iter data := by
  induction data generalizing s iter with
  | nil => rfl
  | cons c rest ih =>
    simp only [parseLoop, Lunix.parseLoop, value_bind, value_ite, value_pure, ih]

theorem seek_value (debug : Bool) (here : Seeking) (u : Bool) (complete : ProtocolState → ProtocolState)
    (cursor : ProtocolState × List UInt8) :
    (seek debug here u complete cursor).value = Lunix.seek debug here u complete cursor := by
  simp only [seek, Lunix.seek, lunixProtocolParseState, value_ite, value_bind, value_pure, parseLoop_value]
  rfl

theorem seekEndByte_value (debug : Bool) (cnt : Int) (cursor : ProtocolState × List UInt8) :
    (seekEndByte debug cnt cursor).value = Lunix.seekEndByte debug cnt cursor := by
  simp only [seekEndByte, Lunix.seekEndByte, lunixProtocolParseState, value_ite, value_bind, value_pure, parseLoop_value]
  rfl

theorem receivedBuf_value (debug : Bool) (cnt : Int) (s : ProtocolState) (buf : List UInt8) :
    (lunixProtocolReceivedBuf debug cnt s buf).value = Lunix.lunixProtocolReceivedBuf debug cnt s buf := by
  simp only [lunixProtocolReceivedBuf, Lunix.lunixProtocolReceivedBuf, value_bind, value_pure, seek_value, seekEndByte_value]

theorem receiveAll_value (debug : Bool) (cnt : Int) (s : ProtocolState) (bufs : List (List UInt8)) :
    (receiveAll debug cnt s bufs).value = Lunix.receiveAll debug cnt s bufs := by
  induction bufs generalizing s with
  | nil => rfl
  | cons buf bufs ih =>
    simp only [receiveAll, Lunix.receiveAll, feed_cons, value_bind, value_pure, receivedBuf_value, ih]

end Tracing

/-! ### What holds in every state -/

/-- The states in the order of the packet. -/
def seekOrder : List Seeking :=
  [.startByte, .packetType, .destinationAddress, .amType, .amGroup, .payloadLength, .payload, .crc, .endByte]

/-- How many bytes a state reads. -/
def Seeking.size (payloadLength : Nat) : Seeking → Nat
  | .destinationAddress | .crc => 2
  | .payload => payloadLength
  | _ => 1

/-- How many bytes the states before the given one read. -/
def Seeking.required (payloadLength : Nat) (state : Seeking) : Nat :=
  ((seekOrder.takeWhile (· ≠ state)).map (Seeking.size payloadLength)).sum

def lengthByte (s : ProtocolState) : Nat := (s.packet 6).toNat

structure Sound (s : ProtocolState) : Prop where
  toRead : s.bytesToRead = s.state.size (lengthByte s)
  read : s.bytesRead ≤ s.bytesToRead
  pos : s.pos = s.state.required (lengthByte s) + s.bytesRead
  bound : s.pos ≤ 265
  special : s.nextIsSpecial = 0 ∨ s.nextIsSpecial = 0x7E ∨ s.nextIsSpecial = 0x7D

/-- The first byte that the given bytes decode to, behind an escape or not. -/
def firstByte (special : UInt8) : List UInt8 → Option UInt8
  | [] => none
  | c :: rest =>
    if special ≠ 0 then some (unescape special c)
    else if c = 0x7E ∨ c = 0x7D then rest.head?.map (unescape c)
    else some c

def Fine : Moment → Prop
  | .state s => Sound s
  | .write pos => pos < maxPacketLen
  | .overflow => False
  | .length before data after => firstByte before.nextIsSpecial data = some (after.packet (after.pos - 1))

/-! ### Steps -/

theorem required_eq (pl : Nat) (state : Seeking) :
    state.required pl = match state with
      | .startByte => 0
      | .packetType => 1
      | .destinationAddress => 2
      | .amType => 4
      | .amGroup => 5
      | .payloadLength => 6
      | .payload => 7
      | .crc => 7 + pl
      | .endByte => 9 + pl := by
  cases state <;> simp [Seeking.required, seekOrder, Seeking.size] <;> omega

theorem lengthByte_lt (s : ProtocolState) : lengthByte s < 256 := (s.packet 6).toNat_lt

/-- No state reads behind byte 265. -/
theorem required_size (s : ProtocolState) (state : Seeking) : state.required (lengthByte s) + state.size (lengthByte s) ≤ 265 := by
  have small := lengthByte_lt s
  rw [required_eq]
  cases state <;> simp only [Seeking.size] <;> omega

/-- The byte of the payload length is written in its own state. -/
theorem Sound.outside {s : ProtocolState} (sound : Sound s) (unread : s.bytesRead < s.bytesToRead)
    (other : s.state ≠ .payloadLength) : s.pos ≠ 6 := by
  have pos := sound.pos
  have toRead := sound.toRead
  rw [required_eq] at pos
  cases state : s.state <;> rw [state] at pos toRead other <;> simp only [Seeking.size] at pos toRead <;> first | omega | skip
  exact absurd rfl other

theorem size_eq {pl pl' : Nat} {state : Seeking} (same : state ≠ .payloadLength → pl = pl') :
    state.size pl = state.size pl' ∧ state.required pl = state.required pl' := by
  by_cases here : state = .payloadLength
  · subst here
    rw [required_eq, required_eq]
    exact ⟨rfl, rfl⟩
  · rw [same here]
    exact ⟨rfl, rfl⟩

theorem consumeByte_cases (u : Bool) (s : ProtocolState) (c : UInt8) :
    (∃ special, consumeByte u s c = { s with nextIsSpecial := special } ∧ (special = 0x7E ∨ special = 0x7D)) ∨
    ∃ packet special, consumeByte u s c =
        { s with packet := packet, pos := s.pos + 1, bytesRead := s.bytesRead + 1, nextIsSpecial := special } ∧
      (∀ k, k ≠ s.pos → packet k = s.packet k) ∧ (special = 0 ∨ special = s.nextIsSpecial) := by
  have other : ∀ b k, k ≠ s.pos → Function.update s.packet s.pos b k = s.packet k := fun b k ne => Function.update_of_ne ne ..
  unfold consumeByte
  split_ifs with escaped pending first second special
  · exact Or.inr ⟨_, 0, rfl, other _, Or.inl rfl⟩
  · exact Or.inr ⟨_, 0, rfl, other _, Or.inl rfl⟩
  · exact Or.inr ⟨_, 0, rfl, fun _ _ => rfl, Or.inl rfl⟩
  · exact Or.inl ⟨c, rfl, special⟩
  · exact Or.inr ⟨_, s.nextIsSpecial, rfl, other _, Or.inr rfl⟩
  · exact Or.inr ⟨_, s.nextIsSpecial, rfl, other _, Or.inr rfl⟩

theorem Sound.consumeByte {s : ProtocolState} (sound : Sound s) (unread : s.bytesRead < s.bytesToRead) (u : Bool)
    (c : UInt8) : Sound (consumeByte u s c) := by
  rcases consumeByte_cases u s c with ⟨special, same, escape⟩ | ⟨packet, special, same, kept, cleared⟩
  · rw [same]
    exact ⟨sound.toRead, sound.read, sound.pos, sound.bound, Or.inr escape⟩
  · rw [same]
    have length : s.state ≠ .payloadLength → lengthByte s = (packet 6).toNat := fun elsewhere => by
      rw [kept 6 (sound.outside unread elsewhere).symm, lengthByte]
    obtain ⟨size, required⟩ := size_eq length
    have fits := required_size s s.state
    have toRead := sound.toRead
    have pos := sound.pos
    refine ⟨?_, unread, ?_, ?_, ?_⟩
    · exact toRead.trans size
    · change s.pos + 1 = s.state.required (packet 6).toNat + (s.bytesRead + 1)
      omega
    · change s.pos + 1 ≤ 265
      omega
    · rcases cleared with rfl | rfl
      · exact Or.inl rfl
      · exact sound.special

theorem Sound.writes {s : ProtocolState} (sound : Sound s) (u : Bool) (c : UInt8) : ∀ m ∈ Tracing.writes u s c, Fine m := by
  have inside : Fine (.write s.pos) := by
    have bound := sound.bound
    change s.pos < 300
    omega
  intro m member
  unfold Tracing.writes at member
  split_ifs at member
  all_goals first
    | exact absurd member List.not_mem_nil
    | rwa [List.mem_singleton.mp member]

/-! ### The loop -/

/-- What a loop returns that was entered in the given state. -/
structure Parsed (state : Seeking) (r : Int × ProtocolState × List UInt8) : Prop where
  sound : Sound r.2.1
  state : r.2.1.state = state
  complete : r.1 = 1 → r.2.1.bytesRead = r.2.1.bytesToRead
  unread : r.1 ≠ 1 → r.2.1.bytesRead < r.2.1.bytesToRead

theorem Sound.parsed {s : ProtocolState} (sound : Sound s) (rest : List UInt8) : Parsed s.state (parseResult s, s, rest) := by
  have read := sound.read
  unfold parseResult
  refine ⟨sound, rfl, ?_, ?_⟩
  · intro done
    split_ifs at done with equal
    · exact equal
    · cases done
  · intro more
    split_ifs at more with equal
    · exact absurd rfl more
    · exact Nat.lt_of_le_of_ne read equal

theorem parseLoop_safe (debug u : Bool) {s : ProtocolState} (sound : Sound s) (iter : Nat) (data : List UInt8) :
    Safe Fine (Parsed s.state) (Tracing.parseLoop debug u s iter data) := by
  induction data generalizing s iter with
  | nil => exact Safe.emit_bind sound (Safe.pure (sound.parsed []))
  | cons c rest ih =>
    apply Safe.emit_bind
    · exact sound
    split_ifs with unread oops full
    · exact Safe.pure ⟨sound, rfl, fun failed => absurd (show (-1 : Int) = 1 from failed) (by decide), fun _ => unread⟩
    · have bound := sound.bound
      rw [maxPacketLen] at full
      omega
    · apply Safe.emitAll_bind (sound.writes u c)
      rw [← consumeByte_state u s c]
      exact ih (sound.consumeByte unread u c) (iter + 1)
    · exact Safe.pure (sound.parsed (c :: rest))

/-! ### The payload length -/

/-- The byte that fills the state, if a byte does. -/
theorem consumeByte_last {s : ProtocolState} (sound : Sound s) (c : UInt8) :
    (s.nextIsSpecial = 0 ∧ (c = 0x7E ∨ c = 0x7D) ∧ consumeByte true s c = { s with nextIsSpecial := c }) ∨
      ∃ t, consumeByte true s c = t ∧ t.bytesRead = s.bytesRead + 1 ∧ t.bytesToRead = s.bytesToRead ∧
        firstByte s.nextIsSpecial [c] = some (t.packet (t.pos - 1)) := by
  unfold consumeByte firstByte
  by_cases pending : s.nextIsSpecial = 0
  · by_cases special : c = 0x7E ∨ c = 0x7D
    · exact Or.inl ⟨pending, special, by simp [pending, special]⟩
    · exact Or.inr ⟨_, rfl, by simp [pending, special, storeByte]⟩
  · refine Or.inr ⟨_, rfl, ?_⟩
    rcases sound.special with none | escape | escape
    · exact absurd none pending
    · simp [escape, unescape]
    · simp [escape, unescape]

theorem firstByte_cons {special c b : UInt8} (decoded : firstByte special [c] = some b) (rest : List UInt8) :
    firstByte special (c :: rest) = some b := by
  unfold firstByte at decoded ⊢
  by_cases pending : special = 0
  · by_cases escape : c = 0x7E ∨ c = 0x7D
    · simp [pending, escape] at decoded
    · simpa [pending, escape] using decoded
  · simpa [pending] using decoded

theorem parseLoop_next {debug u : Bool} {s : ProtocolState} (sound : Sound s) (unread : s.bytesRead < s.bytesToRead)
    {iter : Nat} (few : iter + 1 < 50) (c : UInt8) (rest : List UInt8) :
    parseLoop debug u s iter (c :: rest) = parseLoop debug u (consumeByte u s c) (iter + 1) rest := by
  have bound := sound.bound
  rw [parseLoop, if_pos unread, if_neg fun oops => by omega, if_neg fun full => by rw [maxPacketLen] at full; omega]

theorem length_read {debug : Bool} {s after : ProtocolState} {data rest : List UInt8} (sound : Sound s)
    (one : s.bytesRead + 1 = s.bytesToRead) (done : parseLoop debug true s 0 data = (1, after, rest)) :
    firstByte s.nextIsSpecial data = some (after.packet (after.pos - 1)) := by
  have unread : s.bytesRead < s.bytesToRead := by omega
  have waiting : ∀ t : ProtocolState, t.bytesRead = s.bytesRead → t.bytesToRead = s.bytesToRead →
      ∀ iter, parseLoop debug true t iter [] ≠ (1, after, rest) := by
    intro t read toRead iter complete
    have ret := congrArg Prod.fst complete
    rw [parseLoop, parseResult, if_neg (by omega)] at ret
    cases ret
  cases data with
  | nil => exact absurd done (waiting s rfl rfl 0)
  | cons c data =>
    rw [parseLoop_next sound unread (by decide)] at done
    rcases consumeByte_last sound c with ⟨none, special, pending⟩ | ⟨t, consumed, read, toRead, decoded⟩
    · have sound' := sound.consumeByte unread true c
      rw [pending] at done sound'
      cases data with
      | nil => exact absurd done (waiting { s with nextIsSpecial := c } rfl rfl _)
      | cons e data =>
        rw [parseLoop_next sound' unread (by decide)] at done
        have escape : c ≠ 0 := by rcases special with rfl | rfl <;> decide
        rcases consumeByte_last sound' e with ⟨zero, -⟩ | ⟨t, consumed, read, toRead, decoded⟩
        · exact absurd zero escape
        · rw [consumed, parseLoop_done (by rw [read, toRead]; exact one)] at done
          obtain ⟨-, rfl, -⟩ := Prod.mk.inj done |>.imp_right Prod.mk.inj
          rw [← decoded]
          simp [firstByte, none, special, escape]
    · rw [consumed, parseLoop_done (by rw [read, toRead]; exact one)] at done
      obtain ⟨-, rfl, -⟩ := Prod.mk.inj done |>.imp_right Prod.mk.inj
      exact firstByte_cons decoded data

/-! ### Calls -/

/-- Between the loops the state waits for a byte, unless it is that of an empty payload. -/
structure Waiting (s : ProtocolState) : Prop where
  sound : Sound s
  more : s.bytesRead < s.bytesToRead ∨ s.state = .payload

/-- What follows a complete state is the next one, with its size. -/
def Enters (here : Seeking) (complete : ProtocolState → ProtocolState) : Prop :=
  ∃ next, (∀ pl, next.required pl = here.required pl + here.size pl) ∧
    ∀ s, Sound s → s.state = here → s.bytesRead = s.bytesToRead →
      complete s = setState s next (next.size (lengthByte s)) 0

theorem Enters.waiting {here : Seeking} {complete : ProtocolState → ProtocolState} (enters : Enters here complete)
    {s : ProtocolState} (sound : Sound s) (at_here : s.state = here) (done : s.bytesRead = s.bytesToRead) :
    Waiting (complete s) := by
  obtain ⟨next, required, same⟩ := enters
  have pos := sound.pos
  have toRead := sound.toRead
  rw [same s sound at_here done]
  rw [at_here] at pos toRead
  refine ⟨⟨rfl, Nat.zero_le _, ?_, sound.bound, sound.special⟩, ?_⟩
  · change s.pos = next.required (lengthByte s) + 0
    rw [required]
    omega
  · change 0 < next.size (lengthByte s) ∨ next = .payload
    cases next <;> simp [Seeking.size]

theorem seek_safe (debug : Bool) {here : Seeking} {u : Bool} {complete : ProtocolState → ProtocolState}
    (enters : Enters here complete) (escapes : here = .payloadLength → u = true) {cursor : ProtocolState × List UInt8}
    (waiting : Waiting cursor.1) :
    Safe Fine (fun c => Waiting c.1) (Tracing.seek debug here u complete cursor) := by
  unfold Tracing.seek
  by_cases at_here : cursor.1.state = here
  · rw [if_pos at_here]
    have loop := parseLoop_safe debug u waiting.sound 0 cursor.2
    have value := Tracing.parseLoop_value debug u cursor.1 0 cursor.2
    have first : Safe Fine (fun r => Parsed cursor.1.state r ∧ r = parseLoop debug u cursor.1 0 cursor.2)
        (Tracing.parseLoop debug u cursor.1 0 cursor.2) := ⟨loop.events, loop.value, value⟩
    apply Safe.bind first
    rintro ⟨ret, after, rest⟩ ⟨parsed, same⟩
    by_cases complete : ret = 1
    · simp only [if_pos complete]
      apply Safe.emitAll_bind
      · intro m member
        split_ifs at member with length
        · obtain rfl := List.mem_singleton.mp member
          have waits := waiting.more
          have toRead := waiting.sound.toRead
          rw [at_here, length] at waits toRead
          simp only [Seeking.size, reduceCtorEq, or_false] at waits toRead
          rw [complete, escapes length] at same
          exact length_read waiting.sound (by omega) same.symm
        · exact absurd member List.not_mem_nil
      · exact Safe.pure (enters.waiting parsed.sound (parsed.state.trans at_here) (parsed.complete complete))
    · simp only [if_neg complete]
      exact Safe.pure ⟨parsed.sound, Or.inl (parsed.unread complete)⟩
  · rw [if_neg at_here]
    exact Safe.pure waiting

theorem seekEndByte_safe (debug : Bool) (cnt : Int) {cursor : ProtocolState × List UInt8} (waiting : Waiting cursor.1) :
    Safe Fine (fun r => Waiting r.1) (Tracing.seekEndByte debug cnt cursor) := by
  unfold Tracing.seekEndByte
  by_cases at_end : cursor.1.state = .endByte
  · rw [if_pos at_end]
    apply Safe.bind (parseLoop_safe debug false waiting.sound 0 cursor.2)
    rintro ⟨ret, after, rest⟩ parsed
    by_cases complete : ret = 1
    · simp only [if_pos complete]
      exact Safe.pure ⟨⟨rfl, Nat.zero_le _, rfl, Nat.zero_le _, Or.inl rfl⟩, Or.inl Nat.one_pos⟩
    · simp only [if_neg complete]
      exact Safe.pure ⟨parsed.sound, Or.inl (parsed.unread complete)⟩
  · rw [if_neg at_end]
    exact Safe.pure waiting

theorem enters_next (here : Seeking) (more : here ≠ .payloadLength ∧ here ≠ .endByte) :
    Enters here (setState · here.next.1 here.next.2 0) := by
  refine ⟨here.next.1, fun pl => ?_, fun s _ _ _ => ?_⟩
  · rw [required_eq, required_eq]
    cases here <;> simp [Seeking.next, Seeking.size] at more ⊢
    omega
  · cases here <;> simp [Seeking.next, Seeking.size] at more ⊢

theorem enters_payload : Enters .payloadLength fun s => setState s .payload (s.packet (s.pos - 1)).toNat 0 := by
  refine ⟨.payload, fun pl => by rw [required_eq, required_eq]; rfl, ?_⟩
  intro s sound here done
  have pos := sound.pos
  have toRead := sound.toRead
  rw [here] at pos toRead
  rw [required_eq] at pos
  simp only [Seeking.size] at pos toRead
  have seven : s.pos - 1 = 6 := by omega
  simp only [seven]
  rfl

theorem receivedBuf_safe (debug : Bool) (cnt : Int) {s : ProtocolState} (waiting : Waiting s) (buf : List UInt8) :
    Safe Fine (fun r => Waiting r.1) (Tracing.lunixProtocolReceivedBuf debug cnt s buf) := by
  unfold Tracing.lunixProtocolReceivedBuf
  apply Safe.bind (@seek_safe debug .startByte false _ (enters_next .startByte (by decide)) (by simp) (s, buf) waiting)
  intro cursor waiting
  apply Safe.bind (seek_safe debug (enters_next .packetType (by decide)) (by simp) waiting)
  intro cursor waiting
  apply Safe.bind (seek_safe debug (enters_next .destinationAddress (by decide)) (by simp) waiting)
  intro cursor waiting
  apply Safe.bind (seek_safe debug (enters_next .amType (by decide)) (by simp) waiting)
  intro cursor waiting
  apply Safe.bind (seek_safe debug (enters_next .amGroup (by decide)) (by simp) waiting)
  intro cursor waiting
  apply Safe.bind (seek_safe debug enters_payload (fun _ => rfl) waiting)
  intro cursor waiting
  apply Safe.bind (seek_safe debug (enters_next .payload (by decide)) (by simp) waiting)
  intro cursor waiting
  apply Safe.bind (seek_safe debug (enters_next .crc (by decide)) (by simp) waiting)
  intro cursor waiting
  apply Safe.bind (seekEndByte_safe debug cnt waiting)
  intro r waiting
  apply Safe.emit_bind
  · exact waiting.sound
  · exact Safe.pure waiting

theorem receiveAll_safe (debug : Bool) (cnt : Int) {s : ProtocolState} (waiting : Waiting s) (bufs : List (List UInt8)) :
    Safe Fine (fun r => Waiting r.1) (Tracing.receiveAll debug cnt s bufs) := by
  induction bufs generalizing s with
  | nil => exact Safe.pure waiting
  | cons buf bufs ih =>
    apply Safe.bind (receivedBuf_safe debug cnt waiting buf)
    intro now waiting
    apply Safe.bind (ih waiting)
    intro later waiting
    exact Safe.pure waiting

theorem init_waiting (s₀ : ProtocolState) : Waiting (lunixProtocolInit s₀) :=
  ⟨⟨rfl, Nat.zero_le _, rfl, Nat.zero_le _, Or.inl rfl⟩, Or.inl Nat.one_pos⟩

/-- In both builds, in every state of a run: the bytes read, the position and the pending escape are as
`Sound` says, every write is inside the packet, it never overflows, and the payload length is the decoded
byte. The run is that of the parser. -/
theorem receiveAll_positions (debug : Bool) (cnt : Int) (s₀ : ProtocolState) (bufs : List (List UInt8)) :
    (Tracing.receiveAll debug cnt (lunixProtocolInit s₀) bufs).value = receiveAll debug cnt (lunixProtocolInit s₀) bufs ∧
      Sound (receiveAll debug cnt (lunixProtocolInit s₀) bufs).1 ∧
      ∀ m ∈ (Tracing.receiveAll debug cnt (lunixProtocolInit s₀) bufs).events, Fine m := by
  have safe := receiveAll_safe debug cnt (init_waiting s₀) bufs
  have value := Tracing.receiveAll_value debug cnt (lunixProtocolInit s₀) bufs
  exact ⟨value, value ▸ safe.value.sound, safe.events⟩

end OsLab.Lunix
