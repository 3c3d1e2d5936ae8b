import OsLab.Foundation.Bytes

/-!
# Device numbers

The kernel's `dev_t` of 12 bits major and 20 bits minor number, with its old and its new
encoding for the disk.
-/

namespace OsLab.Ext2
open Bytes

def major (dev : Nat) : Nat := dev >>> 20
def minor (dev : Nat) : Nat := dev &&& (2 ^ 20 - 1)
def mkdev (major minor : Nat) : Nat := major <<< 20 ||| minor

def oldValidDev (dev : Nat) : Bool := major dev < 256 && minor dev < 256
def oldEncodeDev (dev : Nat) : Nat := major dev <<< 8 ||| minor dev

/-- The kernel takes a `u16`. -/
def oldDecodeDev (val : Nat) : Nat := mkdev ((val % 2 ^ 16) >>> 8 &&& 255) ((val % 2 ^ 16) &&& 255)

def newEncodeDev (dev : Nat) : Nat :=
  (minor dev &&& 0xff) ||| major dev <<< 8 ||| (minor dev &&& complement 0xff) <<< 12

def newDecodeDev (dev : Nat) : Nat :=
  mkdev ((dev &&& 0xfff00) >>> 8) ((dev &&& 0xff) ||| (dev >>> 12 &&& 0xfff00))

variable {dev : Nat}

theorem major_eq : major dev = dev / 2 ^ 20 := Nat.shiftRight_eq_div_pow dev 20

theorem minor_eq : minor dev = dev % 2 ^ 20 := Nat.and_two_pow_sub_one_eq_mod dev 20

theorem or_eq_add {a b k : Nat} (small : b < 2 ^ k) : a <<< k ||| b = a * 2 ^ k + b := by
  rw [← Nat.shiftLeft_add_eq_or_of_lt small, Nat.shiftLeft_eq]

theorem mkdev_eq {ma mi : Nat} (small : mi < 2 ^ 20) : mkdev ma mi = ma * 2 ^ 20 + mi := or_eq_add small

/-- A mask of the bits from `k` on. -/
theorem and_shiftLeft (x m k : Nat) : x &&& m <<< k = (x >>> k &&& m) <<< k := by
  apply Nat.eq_of_testBit_eq
  intro i
  rw [Nat.testBit_and, Nat.testBit_shiftLeft, Nat.testBit_shiftLeft, Nat.testBit_and, Nat.testBit_shiftRight]
  by_cases high : k ≤ i
  · simp [high]
  · simp [high]

theorem old_decode_encode (valid : oldValidDev dev = true) : oldDecodeDev (oldEncodeDev dev) = dev := by
  unfold oldValidDev at valid
  rw [major_eq, minor_eq, Bool.and_eq_true, decide_eq_true_iff, decide_eq_true_iff] at valid
  have encoded : oldEncodeDev dev = dev / 2 ^ 20 * 2 ^ 8 + dev % 2 ^ 20 := by
    unfold oldEncodeDev
    rw [major_eq, minor_eq, or_eq_add (by omega)]
  have low (x : Nat) : x &&& 255 = x % 256 := Nat.and_two_pow_sub_one_eq_mod x 8
  unfold oldDecodeDev
  rw [encoded, low, low, Nat.shiftRight_eq_div_pow, mkdev_eq (by omega)]
  omega

theorem old_encode_lt (valid : oldValidDev dev = true) : oldEncodeDev dev < 2 ^ 16 := by
  unfold oldValidDev at valid
  rw [major_eq, minor_eq, Bool.and_eq_true, decide_eq_true_iff, decide_eq_true_iff] at valid
  unfold oldEncodeDev
  rw [major_eq, minor_eq, or_eq_add (by omega)]
  omega

theorem old_encode_zero (valid : oldValidDev dev = true) (zero : oldEncodeDev dev = 0) : dev = 0 := by
  have back := old_decode_encode valid
  rw [zero] at back
  exact back.symm

theorem new_encode_eq (word : dev < 2 ^ 32) :
    newEncodeDev dev = dev % 2 ^ 20 / 2 ^ 8 * 2 ^ 20 + dev / 2 ^ 20 * 2 ^ 8 + dev % 2 ^ 8 := by
  unfold newEncodeDev
  have low : minor dev &&& 0xff = dev % 2 ^ 8 := by
    rw [minor_eq, Nat.and_two_pow_sub_one_eq_mod _ 8]
    omega
  have high : minor dev &&& complement 0xff = dev % 2 ^ 20 / 2 ^ 8 * 2 ^ 8 := by
    rw [minor_eq]
    exact @and_complement (dev % 2 ^ 20) 8 (by decide) (by omega)
  rw [low, high, major_eq, Nat.lor_comm (dev % 2 ^ 8), or_eq_add (by omega), Nat.lor_comm,
    show (dev % 2 ^ 20 / 2 ^ 8 * 2 ^ 8) <<< 12 = (dev % 2 ^ 20 / 2 ^ 8) <<< 20 by
      rw [Nat.shiftLeft_eq, Nat.shiftLeft_eq, Nat.mul_assoc, ← pow_add], or_eq_add (by omega)]
  omega

theorem new_encode_lt (word : dev < 2 ^ 32) : newEncodeDev dev < 2 ^ 32 := by
  rw [new_encode_eq word]
  omega

theorem new_encode_digits (word : dev < 2 ^ 32) :
    newEncodeDev dev % 2 ^ 8 = dev % 2 ^ 8 ∧ newEncodeDev dev / 2 ^ 8 % 2 ^ 12 = dev / 2 ^ 20 ∧
      newEncodeDev dev / 2 ^ 20 % 2 ^ 12 = dev % 2 ^ 20 / 2 ^ 8 := by
  have ma : dev / 2 ^ 20 < 2 ^ 12 := by omega
  have high : dev % 2 ^ 20 / 2 ^ 8 < 2 ^ 12 := by omega
  have low : dev % 2 ^ 8 < 2 ^ 8 := Nat.mod_lt _ (by decide)
  rw [new_encode_eq word]
  generalize dev / 2 ^ 20 = a at ma ⊢
  generalize dev % 2 ^ 20 / 2 ^ 8 = b at high ⊢
  generalize dev % 2 ^ 8 = c at low ⊢
  refine ⟨by omega, by omega, by omega⟩

theorem new_decode_eq (code : Nat) : newDecodeDev code =
    code / 2 ^ 8 % 2 ^ 12 * 2 ^ 20 + (code / 2 ^ 20 % 2 ^ 12 * 2 ^ 8 + code % 2 ^ 8) := by
  have mask (x : Nat) : x &&& 0xfff00 = x / 2 ^ 8 % 2 ^ 12 * 2 ^ 8 := by
    rw [show 0xfff00 = (2 ^ 12 - 1) <<< 8 from rfl, and_shiftLeft, Nat.and_two_pow_sub_one_eq_mod,
      Nat.shiftRight_eq_div_pow, Nat.shiftLeft_eq]
  have low : code &&& 0xff = code % 2 ^ 8 := Nat.and_two_pow_sub_one_eq_mod code 8
  have minor_part : (code &&& 0xff) ||| (code >>> 12 &&& 0xfff00) = code / 2 ^ 20 % 2 ^ 12 * 2 ^ 8 + code % 2 ^ 8 := by
    rw [mask, low, Nat.lor_comm, ← Nat.shiftLeft_eq, or_eq_add (by omega), Nat.shiftRight_eq_div_pow,
      Nat.div_div_eq_div_mul]
    rfl
  have major_part : (code &&& 0xfff00) >>> 8 = code / 2 ^ 8 % 2 ^ 12 := by
    rw [mask, Nat.shiftRight_eq_div_pow, Nat.mul_div_cancel _ (by decide)]
  unfold newDecodeDev
  rw [minor_part, major_part, mkdev_eq (by omega)]

theorem new_decode_encode (word : dev < 2 ^ 32) : newDecodeDev (newEncodeDev dev) = dev := by
  obtain ⟨low, middle, high⟩ := new_encode_digits word
  rw [new_decode_eq, low, middle, high]
  omega

end OsLab.Ext2
