import OsLab.Foundation.Transducer
import OsLab.Lunix.Protocol
import Mathlib.Tactic.Common
import Mathlib.Tactic.IntervalCases

/-!
# The packet structure

`Decoder` is the packet structure of `lunix-protocol.c` as a machine that takes one
byte at a time and keeps nothing but the unescaped bytes of the packet. `phaseAt`
says in which state the parser is after so many of them.
-/

namespace OsLab.Lunix
open Transducer

/-- The unescaped bytes of the packet so far, and the escape byte that awaits its byte. -/
structure Decoder where
  got : List UInt8
  pending : Option UInt8

namespace Decoder

def start : Decoder := ⟨[], none⟩

def payloadLen (got : List UInt8) : Nat := (got.getD 6 0).toNat

/-- The start byte, the packet type and the end byte are never escaped. -/
def Raw (got : List UInt8) : Prop := got.length < 2 ∨ got.length = 9 + payloadLen got

instance (got : List UInt8) : Decidable (Raw got) := inferInstanceAs (Decidable (_ ∨ _))

def unescape (escape c : UInt8) : UInt8 := if escape = 0x7E then c else c ^^^ 0x20

/-- One more unescaped byte; the packet is output when it is complete. -/
def push (d : Decoder) (c : UInt8) : Decoder × List (List UInt8) :=
  if d.got.length + 1 = 10 + payloadLen (d.got ++ [c]) then (start, [d.got ++ [c]])
  else (⟨d.got ++ [c], none⟩, [])

def step (d : Decoder) (c : UInt8) : Decoder × List (List UInt8) :=
  if Raw d.got then push d c
  else match d.pending with
    | some escape => push d (unescape escape c)
    | none => if c = 0x7E ∨ c = 0x7D then (⟨d.got, some c⟩, []) else push d c

/-- The unescaped byte that `c` completes. -/
def byte (d : Decoder) (c : UInt8) : Option UInt8 :=
  if Raw d.got then some c
  else match d.pending with
    | some escape => some (unescape escape c)
    | none => if c = 0x7E ∨ c = 0x7D then none else some c

/-- What `c` changes in the memory that holds the packet. -/
def store (d : Decoder) (c : UInt8) (packet : Nat → UInt8) : Nat → UInt8 :=
  match byte d c with
  | some b => Function.update packet d.got.length b
  | none => packet

/-- The packets that `bytes` completes. -/
def packets (d : Decoder) (bytes : List UInt8) : List (List UInt8) := (run step d bytes).2

/-- The parser's state, bytes to read and bytes read once it holds `n` bytes of a packet
whose payload length is `pl`. -/
def phaseAt (n pl : Nat) : Seeking × Nat × Nat :=
  if n < 1 then (.startByte, 1, n)
  else if n < 2 then (.packetType, 1, n - 1)
  else if n < 4 then (.destinationAddress, 2, n - 2)
  else if n < 5 then (.amType, 1, n - 4)
  else if n < 6 then (.amGroup, 1, n - 5)
  else if n < 7 then (.payloadLength, 1, n - 6)
  else if n < 7 + pl then (.payload, pl, n - 7)
  else if n < 9 + pl then (.crc, 2, n - 7 - pl)
  else (.endByte, 1, n - 9 - pl)

def phase (got : List UInt8) : Seeking × Nat × Nat := phaseAt got.length (payloadLen got)

end Decoder

/-- Which calls of `lunix_protocol_parse_state` pass `use_specials`. -/
def Seeking.specials : Seeking → Bool
  | .startByte | .packetType | .endByte => false
  | _ => true

/-- The state that follows, with its bytes to read, except after the payload length. -/
def Seeking.next : Seeking → Seeking × Nat
  | .startByte => (.packetType, 1)
  | .packetType => (.destinationAddress, 2)
  | .destinationAddress => (.amType, 1)
  | .amType => (.amGroup, 1)
  | .amGroup => (.payloadLength, 1)
  | .payload => (.crc, 2)
  | .payloadLength | .crc | .endByte => (.endByte, 1)

namespace Decoder

theorem step_eq (d : Decoder) (c : UInt8) :
    step d c = match byte d c with
      | some b => push d b
      | none => (⟨d.got, some c⟩, []) := by
  unfold step byte
  by_cases raw : Raw d.got
  · simp [raw]
  · cases d.pending with
    | some e => simp [raw]
    | none => by_cases escape : c = 0x7E ∨ c = 0x7D <;> simp [raw, escape]

theorem payloadLen_lt (got : List UInt8) : payloadLen got < 256 := (got.getD 6 0).toNat_lt

theorem payloadLen_short {got : List UInt8} (short : got.length ≤ 6) : payloadLen got = 0 := by
  simp [payloadLen, List.getD_eq_getElem?_getD, List.getElem?_eq_none short]

theorem payloadLen_push {got : List UInt8} (other : got.length ≠ 6) (b : UInt8) :
    payloadLen (got ++ [b]) = payloadLen got := by
  rcases Nat.lt_or_gt_of_ne other with short | long
  · rw [payloadLen_short (by simp; omega), payloadLen_short (by omega)]
  · simp [payloadLen, List.getD_eq_getElem?_getD, List.getElem?_append_left long]

theorem payloadLen_push_six {got : List UInt8} (six : got.length = 6) (b : UInt8) :
    payloadLen (got ++ [b]) = b.toNat := by
  simp [payloadLen, List.getD_eq_getElem?_getD, ← six]

theorem phaseAt_payload (n pl : Nat) (low : 7 ≤ n) (high : n < 7 + pl) :
    phaseAt n pl = (.payload, pl, n - 7) := by
  simp only [phaseAt, if_pos high, if_neg (show ¬ n < 1 by omega), if_neg (show ¬ n < 2 by omega),
    if_neg (show ¬ n < 4 by omega), if_neg (show ¬ n < 5 by omega), if_neg (show ¬ n < 6 by omega),
    if_neg (show ¬ n < 7 by omega)]

theorem phaseAt_crc (n pl : Nat) (header : 7 ≤ n) (low : 7 + pl ≤ n) (high : n < 9 + pl) :
    phaseAt n pl = (.crc, 2, n - 7 - pl) := by
  simp only [phaseAt, if_pos high, if_neg (show ¬ n < 1 by omega), if_neg (show ¬ n < 2 by omega),
    if_neg (show ¬ n < 4 by omega), if_neg (show ¬ n < 5 by omega), if_neg (show ¬ n < 6 by omega),
    if_neg (show ¬ n < 7 by omega), if_neg (show ¬ n < 7 + pl by omega)]

theorem phaseAt_end (n pl : Nat) (low : 9 + pl ≤ n) : phaseAt n pl = (.endByte, 1, n - 9 - pl) := by
  simp only [phaseAt, if_neg (show ¬ n < 1 by omega), if_neg (show ¬ n < 2 by omega),
    if_neg (show ¬ n < 4 by omega), if_neg (show ¬ n < 5 by omega), if_neg (show ¬ n < 6 by omega),
    if_neg (show ¬ n < 7 by omega), if_neg (show ¬ n < 7 + pl by omega),
    if_neg (show ¬ n < 9 + pl by omega)]

/-- The parser always waits for a byte of its current state. -/
theorem phase_unread {got : List UInt8} (room : got.length < 10 + payloadLen got) :
    (phase got).2.2 < (phase got).2.1 := by
  unfold phase phaseAt
  split_ifs <;> dsimp only <;> omega

theorem phase_specials {got : List UInt8} (room : got.length < 10 + payloadLen got) :
    (phase got).1.specials = true ↔ ¬ Raw got := by
  unfold phase phaseAt Raw
  split_ifs <;> simp only [Seeking.specials] <;> simp <;> omega

/-- A byte either is not the last one of its state or enters the next state. -/
theorem phaseAt_succ {n pl : Nat} (other : n ≠ 6) (room : n + 1 < 10 + pl) :
    (phaseAt (n + 1) pl = ((phaseAt n pl).1, (phaseAt n pl).2.1, (phaseAt n pl).2.2 + 1) ∧
      (phaseAt n pl).2.2 + 1 < (phaseAt n pl).2.1) ∨
    ((phaseAt n pl).2.2 + 1 = (phaseAt n pl).2.1 ∧ (phaseAt n pl).1 ≠ .payloadLength ∧
      (phaseAt n pl).1 ≠ .endByte ∧
      phaseAt (n + 1) pl = ((phaseAt n pl).1.next.1, (phaseAt n pl).1.next.2, 0)) := by
  by_cases header : n < 6
  · interval_cases n <;> simp [phaseAt, Seeking.next]
  by_cases inPayload : n < 7 + pl
  · rw [phaseAt_payload n pl (by omega) inPayload]
    by_cases last : n + 1 = 7 + pl
    · exact Or.inr ⟨by dsimp only; omega, by simp, by simp,
        by rw [phaseAt_crc (n + 1) pl (by omega) (by omega) (by omega)]; simp [Seeking.next]; omega⟩
    · exact Or.inl ⟨by rw [phaseAt_payload (n + 1) pl (by omega) (by omega), show n + 1 - 7 = n - 7 + 1 by omega],
        by dsimp only; omega⟩
  rw [phaseAt_crc n pl (by omega) (by omega) (by omega)]
  by_cases last : n + 1 = 9 + pl
  · exact Or.inr ⟨by dsimp only; omega, by simp, by simp,
      by rw [phaseAt_end (n + 1) pl (by omega)]; simp [Seeking.next]; omega⟩
  · exact Or.inl ⟨by rw [phaseAt_crc (n + 1) pl (by omega) (by omega) (by omega), show n + 1 - 7 - pl = n - 7 - pl + 1 by omega],
      by dsimp only; omega⟩

end Decoder

end OsLab.Lunix
