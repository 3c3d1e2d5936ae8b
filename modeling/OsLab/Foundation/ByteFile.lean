import Mathlib.Data.List.Basic
import Mathlib.Order.Basic

/-!
# Byte files

A file as its bytes: what is written and what is cut off.
-/

/-- The bytes are zero from the end of the file on. -/
@[ext] structure ByteFile where
  size : Nat
  byte : Nat → UInt8
  tail : ∀ p, size ≤ p → byte p = 0

namespace ByteFile

def empty : ByteFile := ⟨0, fun _ => 0, fun _ _ => rfl⟩

/-- The bytes between the end and `pos` are zero. -/
def write (f : ByteFile) (pos : Nat) (data : List UInt8) : ByteFile where
  size := max f.size (pos + data.length)
  byte p := if pos ≤ p ∧ p < pos + data.length then data.getD (p - pos) 0 else f.byte p
  tail p behind := by
    rw [if_neg fun inside => absurd (Nat.le_trans (Nat.le_max_right ..) behind) (Nat.not_le.mpr inside.2)]
    exact f.tail p (Nat.le_trans (Nat.le_max_left ..) behind)

def setSize (f : ByteFile) (size : Nat) : ByteFile where
  size := size
  byte p := if p < size then f.byte p else 0
  tail _ behind := if_neg (Nat.not_lt.mpr behind)

def read (f : ByteFile) (pos n : Nat) : List UInt8 := (List.range (min n (f.size - pos))).map fun k => f.byte (pos + k)

end ByteFile
