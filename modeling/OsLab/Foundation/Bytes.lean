import Mathlib.Data.List.Basic
import Mathlib.Data.Nat.Bitwise
import Mathlib.Algebra.Order.Ring.Nat

/-!
# Byte images

A file or a stretch of memory as a byte at each offset, with little-endian numbers of any
width, and the masks that 32-bit code takes offsets apart with.
-/

namespace Bytes

abbrev Image := Nat → UInt8

def read (img : Image) (off n : Nat) : List UInt8 := (List.range n).map fun k => img (off + k)

def write (img : Image) (off : Nat) (bs : List UInt8) : Image :=
  fun k => if off ≤ k ∧ k < off + bs.length then bs.getD (k - off) 0 else img k

def leNat : List UInt8 → Nat
  | [] => 0
  | b :: bs => b.toNat + 256 * leNat bs

def leBytes : Nat → Nat → List UInt8
  | 0, _ => []
  | n + 1, x => UInt8.ofNat x :: leBytes n (x / 256)

def load (img : Image) (off n : Nat) : Nat := leNat (read img off n)

def store (img : Image) (off n x : Nat) : Image := write img off (leBytes n x)

variable {img img' : Image} {off off' n n' x : Nat} {bs : List UInt8}

@[simp] theorem read_length : (read img off n).length = n := by simp [read]

@[simp] theorem leBytes_length (n x : Nat) : (leBytes n x).length = n := by
  induction n generalizing x with
  | zero => rfl
  | succ n ih => rw [leBytes, List.length_cons, ih]

theorem read_append (m : Nat) : read img off (n + m) = read img off n ++ read img (off + n) m := by
  simp [read, List.range_add, Nat.add_assoc]

theorem leNat_leBytes (small : x < 256 ^ n) : leNat (leBytes n x) = x := by
  induction n generalizing x with
  | zero =>
    rw [pow_zero] at small
    simp only [leBytes, leNat]
    omega
  | succ n ih =>
    have rest : x / 256 < 256 ^ n := by
      rw [pow_succ] at small
      exact (Nat.div_lt_iff_lt_mul (by decide)).mpr small
    have low : (UInt8.ofNat x).toNat = x % 256 := UInt8.toNat_ofNat'
    rw [leBytes, leNat, ih rest, low, Nat.mod_add_div]

theorem leNat_lt (bs : List UInt8) : leNat bs < 256 ^ bs.length := by
  induction bs with
  | nil => simp [leNat]
  | cons b bs ih =>
    have low := b.toNat_lt
    rw [leNat, List.length_cons, pow_succ]
    omega

theorem load_lt : load img off n < 256 ^ n := by
  have bound := leNat_lt (read img off n)
  rwa [read_length] at bound

/-! ### Frames -/

theorem read_congr (same : ∀ k, off ≤ k → k < off + n → img k = img' k) : read img off n = read img' off n := by
  refine List.map_congr_left fun k member => ?_
  have bound := List.mem_range.mp member
  exact same _ (by omega) (by omega)

theorem load_congr (same : ∀ k, off ≤ k → k < off + n → img k = img' k) : load img off n = load img' off n := by
  rw [load, read_congr same, load]

theorem write_outside {k : Nat} (outside : k < off ∨ off + bs.length ≤ k) : write img off bs k = img k :=
  if_neg (by omega)

theorem read_write_take (short : n ≤ bs.length) : read (write img off bs) off n = bs.take n := by
  refine List.ext_getElem (by simp [short]) fun k low high => ?_
  rw [read_length] at low
  have inside : k < bs.length := by omega
  simp [read, write, inside]

theorem read_write_self : read (write img off bs) off bs.length = bs :=
  (read_write_take (Nat.le_refl _)).trans (List.take_length)

theorem store_outside {k : Nat} (outside : k < off ∨ off + n ≤ k) : store img off n x k = img k :=
  write_outside (by rwa [leBytes_length])

theorem load_store_self (small : x < 256 ^ n) : load (store img off n x) off n = x := by
  have back := @read_write_self img off (leBytes n x)
  rw [leBytes_length] at back
  rw [load, store, back, leNat_leBytes small]

theorem load_store_disjoint (apart : off' + n' ≤ off ∨ off + n ≤ off') :
    load (store img off n x) off' n' = load img off' n' :=
  load_congr fun _ _ _ => store_outside (by omega)

theorem read_store_disjoint (apart : off' + n' ≤ off ∨ off + n ≤ off') :
    read (store img off n x) off' n' = read img off' n' :=
  read_congr fun _ _ _ => store_outside (by omega)

theorem load_write_disjoint (apart : off' + n' ≤ off ∨ off + bs.length ≤ off') :
    load (write img off bs) off' n' = load img off' n' :=
  load_congr fun _ _ _ => write_outside (by omega)

/-! ### Masks -/

/-- `~m` in 32 bits. -/
def complement (m : Nat) : Nat := 2 ^ 32 - 1 - m

theorem complement_mask {k : Nat} (small : k ≤ 32) : complement (2 ^ k - 1) = 2 ^ k * (2 ^ (32 - k) - 1) := by
  have split : 2 ^ k * 2 ^ (32 - k) = 2 ^ 32 := by rw [← pow_add, Nat.add_sub_cancel' small]
  have pos := Nat.two_pow_pos k
  unfold complement
  rw [Nat.mul_sub, split]
  omega

/-- Clearing the low `k` bits rounds down to a multiple of `2 ^ k`. -/
theorem and_complement {k : Nat} (small : k ≤ 32) (fits : x < 2 ^ 32) :
    x &&& complement (2 ^ k - 1) = x / 2 ^ k * 2 ^ k := by
  rw [complement_mask small, Nat.mul_comm (x / 2 ^ k)]
  refine Nat.eq_of_testBit_eq fun i => ?_
  rw [Nat.testBit_and, Nat.testBit_two_pow_mul, Nat.testBit_two_pow_mul, Nat.testBit_two_pow_sub_one,
    Nat.testBit_div_two_pow]
  by_cases low : k ≤ i
  · by_cases high : i < 32
    · have inside : i - k < 32 - k := by omega
      simp [low, inside]
    · have zero : x.testBit i = false := Nat.testBit_lt_two_pow (fits.trans_le (Nat.pow_le_pow_right (by decide) (by omega)))
      simp [zero, low]
  · simp [low]

/-- The test whether two offsets lie in one block of `2 ^ k` bytes. -/
theorem xor_and_complement {k y : Nat} (small : k ≤ 32) (fits : x < 2 ^ 32) (fits' : y < 2 ^ 32) :
    (x ^^^ y) &&& complement (2 ^ k - 1) = 0 ↔ x / 2 ^ k = y / 2 ^ k := by
  rw [and_complement small (Nat.xor_lt_two_pow fits fits'), Nat.mul_eq_zero, Nat.xor_div_two_pow, Nat.xor_eq_zero_iff]
  exact or_iff_left (Nat.two_pow_pos k).ne'

end Bytes
