import OsLab.Foundation.Decimal
import OsLab.Lunix.Chrdev
import Mathlib.Algebra.Order.Field.Basic
import Mathlib.Algebra.Order.Ring.Rat
import Mathlib.Tactic.NormNum
import Mathlib.Tactic.Positivity

/-!
# Printed measurements

What the text in the buffer of an open file denotes when it is read as a decimal number. The
remainder is printed without the zeros in front of it, and the buffer cuts the longest texts.
-/

namespace OsLab.Lunix

/-- The text up to the NUL. -/
def cString (data : List Char) : List Char := data.takeWhile (· ≠ '\x00')

/-- What `snprintf` leaves in the buffer for a value. -/
def printed (buf : List Char) (v : Int) : List Char := cString (snprintf buf bufSz (measurementText v)).2

def denotes (text : List Char) : Option ℚ := Decimal.signed ',' text

/-- The remainder needs no zeros in front of it, and nothing but zeros is cut behind it. -/
def FullRemainder (v : Int) : Prop :=
  let whole := v.natAbs / 1000
  let rest := v.natAbs % 1000
  rest = 0 ∨ 100 ≤ rest ∧ (whole < 10 ^ 14 ∨ whole < 10 ^ 15 ∧ 10 ∣ rest ∨ 100 ∣ rest)

instance (v : Int) : Decidable (FullRemainder v) := inferInstanceAs (Decidable (_ ∨ _))

/-! ### The text of a value -/

def signOf (v : Int) : Char := if 0 ≤ v then '+' else '-'

theorem measurementText_eq (v : Int) :
    measurementText v =
      signOf v :: (Nat.toDigits 10 (v.natAbs / 1000) ++ ',' :: Nat.toDigits 10 (v.natAbs % 1000)) := by
  have magnitude : (if 0 ≤ v then v else (-1) * v) = (v.natAbs : Int) := by split_ifs <;> omega
  have number : ∀ n : Nat, ld (n : Int) = Nat.toDigits 10 n := fun n => by
    unfold ld
    rw [if_neg (by omega), Int.natAbs_natCast]
  unfold measurementText signOf
  simp only [magnitude]
  have whole : (v.natAbs : Int).tdiv 1000 = ((v.natAbs / 1000 : Nat) : Int) := rfl
  have rest : (v.natAbs : Int).tmod 1000 = ((v.natAbs % 1000 : Nat) : Int) := rfl
  rw [whole, rest, number, number]

theorem toDigits_isDigit {n : Nat} {c : Char} (member : c ∈ Nat.toDigits 10 n) : c.isDigit :=
  Nat.isDigit_of_mem_toDigits (by decide) (by decide) member

theorem not_nul_of_digit {c : Char} (digit : c.isDigit) : c ≠ '\x00' := by
  rintro rfl
  exact absurd digit (by decide)

theorem measurementText_no_nul {v : Int} {c : Char} (member : c ∈ measurementText v) : c ≠ '\x00' := by
  rw [measurementText_eq] at member
  rcases List.mem_cons.mp member with rfl | tail
  · unfold signOf
    split_ifs <;> decide
  · rcases List.mem_append.mp tail with digit | rest
    · exact not_nul_of_digit (toDigits_isDigit digit)
    · rcases List.mem_cons.mp rest with rfl | digit
      · decide
      · exact not_nul_of_digit (toDigits_isDigit digit)

theorem printed_eq (buf : List Char) (v : Int) : printed buf v = (measurementText v).take 19 := by
  have apart : ∀ c ∈ (measurementText v).take 19, (decide (c ≠ '\x00')) = true := fun c member =>
    decide_eq_true (measurementText_no_nul (List.mem_of_mem_take member))
  unfold printed cString snprintf bufSz
  simp only [List.append_assoc, List.singleton_append]
  rw [List.takeWhile_append_of_pos apart]
  simp

/-- A successful update prints the value of the table. -/
theorem stateUpdate_printed {tables : LookupTables} {sensor : Sensor} {s c : ChrdevState}
    (done : lunixChrdevStateUpdate tables sensor s = (0, c)) :
    ∃ n, tables.properData s.type (sensor s.type).value = some n ∧ cString c.bufData = printed s.bufData n := by
  unfold lunixChrdevStateUpdate at done
  split_ifs at done with fresh
  · cases read : tables.properData s.type (sensor s.type).value with
    | none => simp [read, eagain] at done
    | some n =>
      simp only [read, Prod.mk.injEq, true_and] at done
      subst done
      exact ⟨n, rfl, rfl⟩
  · simp [eagain] at done

/-! ### What it denotes -/

/-- The number of digits of the remainder that are behind the comma of a text of 19 characters. -/
def kept (v : Int) : Nat := 17 - (Nat.toDigits 10 (v.natAbs / 1000)).length

theorem digits_length_le {n k : Nat} (some : 0 < k) : (Nat.toDigits 10 n).length ≤ k ↔ n < 10 ^ k :=
  Nat.length_toDigits_le_iff (by decide) some

theorem kept_pos {v : Int} (low : -2 ^ 63 < v) (high : v < 2 ^ 63) : 1 ≤ kept v := by
  have short : (Nat.toDigits 10 (v.natAbs / 1000)).length ≤ 16 := (digits_length_le (by decide)).mpr (by omega)
  unfold kept
  omega

theorem printed_parts {v : Int} (low : -2 ^ 63 < v) (high : v < 2 ^ 63) (buf : List Char) :
    printed buf v = signOf v :: (Nat.toDigits 10 (v.natAbs / 1000) ++
      ',' :: (Nat.toDigits 10 (v.natAbs % 1000)).take (kept v)) := by
  have some := kept_pos low high
  have room : 18 - (Nat.toDigits 10 (v.natAbs / 1000)).length = kept v + 1 := by
    unfold kept at some ⊢
    omega
  rw [printed_eq, measurementText_eq, List.take_succ_cons, List.take_append, room, List.take_succ_cons,
    List.take_of_length_le]
  unfold kept at some
  omega

theorem toDigits_ne_nil (n : Nat) : Nat.toDigits 10 n ≠ [] := by
  have positive : 0 < (Nat.toDigits 10 n).length := Nat.length_toDigits_pos
  exact List.length_pos_iff.mp positive

def sign (v : Int) : ℚ := if 0 ≤ v then 1 else -1

/-- The remainder as far as it is printed, as the digits behind a comma. -/
def fraction (v : Int) : ℚ :=
  let digits := Nat.toDigits 10 (v.natAbs % 1000)
  (v.natAbs % 1000 / 10 ^ (digits.length - kept v) : Nat) / 10 ^ min (kept v) digits.length

theorem printed_denotes {v : Int} (low : -2 ^ 63 < v) (high : v < 2 ^ 63) (buf : List Char) :
    denotes (printed buf v) = some (sign v * ((v.natAbs / 1000 : Nat) + fraction v)) := by
  have some := kept_pos low high
  have value := @Decimal.unsigned_fraction ',' (Nat.toDigits 10 (v.natAbs / 1000))
    ((Nat.toDigits 10 (v.natAbs % 1000)).take (kept v)) (by decide) (toDigits_ne_nil _)
    (fun c member => toDigits_isDigit member)
    (fun none => by
      rcases List.take_eq_nil_iff.mp none with zero | none
      · omega
      · exact toDigits_ne_nil _ none)
    (fun c member => toDigits_isDigit (List.mem_of_mem_take member))
  rw [Decimal.ofDigitChars_take _ (fun c member => toDigits_isDigit member), Nat.ofDigitChars_ten_toDigits,
    Nat.ofDigitChars_ten_toDigits, List.length_take] at value
  rw [printed_parts low high, denotes]
  unfold signOf sign fraction
  split_ifs with positive
  · rw [Decimal.signed, value, one_mul]
  · rw [Decimal.signed, value, neg_one_mul]
    rfl

theorem value_parts (v : Int) : (v : ℚ) / 1000 =
    sign v * ((v.natAbs / 1000 : Nat) + ((v.natAbs % 1000 : Nat) : ℚ) / 1000) := by
  have split := Nat.div_add_mod v.natAbs 1000
  have cast : (v.natAbs : ℚ) = 1000 * (v.natAbs / 1000 : Nat) + (v.natAbs % 1000 : Nat) := by exact_mod_cast split.symm
  have magnitude : (v : ℚ) = sign v * v.natAbs := by
    unfold sign
    split_ifs with positive
    · rw [one_mul, ← Int.cast_natCast, Int.natAbs_of_nonneg positive]
    · have below : ((v.natAbs : Nat) : Int) = -v := by omega
      rw [← Int.cast_natCast, below]
      push_cast
      ring
  rw [magnitude, cast]
  ring

theorem digits_length_eq {r : Nat} (small : r < 1000) :
    (Nat.toDigits 10 r).length = if r < 10 then 1 else if r < 100 then 2 else 3 := by
  have one := @digits_length_le r 1 (by decide)
  have two := @digits_length_le r 2 (by decide)
  have three := (@digits_length_le r 3 (by decide)).mpr small
  have positive : 0 < (Nat.toDigits 10 r).length := Nat.length_toDigits_pos
  split_ifs <;> omega

/-- The first `k` digits of a remainder denote it if and only if it has three digits and the others are zeros. -/
theorem cut_exact_iff {r k : Nat} (small : r < 1000) (some : 1 ≤ k) :
    ((r / 10 ^ ((Nat.toDigits 10 r).length - k) : Nat) : ℚ) / 10 ^ min k (Nat.toDigits 10 r).length = r / 1000 ↔
      r = 0 ∨ 100 ≤ r ∧ (3 ≤ k ∨ k = 2 ∧ 10 ∣ r ∨ 100 ∣ r) := by
  rw [div_eq_div_iff (by positivity) (by norm_num), digits_length_eq small]
  norm_cast
  by_cases one : r < 10
  · rw [if_pos one, Nat.sub_eq_zero_of_le some, Nat.min_eq_right some]
    omega
  rw [if_neg one]
  by_cases two : r < 100
  · rw [if_pos two]
    obtain rfl | more := Nat.eq_or_lt_of_le some
    · change r / 10 * 1000 = r * 10 ↔ _
      omega
    · rw [Nat.sub_eq_zero_of_le more, Nat.min_eq_right more]
      omega
  · rw [if_neg two]
    obtain rfl | rfl | more : k = 1 ∨ k = 2 ∨ 3 ≤ k := by omega
    · change r / 100 * 1000 = r * 10 ↔ _
      omega
    · change r / 10 * 1000 = r * 100 ↔ _
      omega
    · rw [Nat.sub_eq_zero_of_le more, Nat.min_eq_right more]
      omega

theorem fraction_exact_iff {v : Int} (low : -2 ^ 63 < v) (high : v < 2 ^ 63) :
    fraction v = ((v.natAbs % 1000 : Nat) : ℚ) / 1000 ↔ FullRemainder v := by
  have some := kept_pos low high
  have fourteen := @digits_length_le (v.natAbs / 1000) 14 (by decide)
  have fifteen := @digits_length_le (v.natAbs / 1000) 15 (by decide)
  unfold fraction FullRemainder
  simp only
  rw [cut_exact_iff (Nat.mod_lt _ (by decide)) some]
  unfold kept
  omega

/-- The printed text denotes the value if and only if the remainder is 0 or has three digits that are
not cut; the printed numbers of such values are in the order of the values. -/
theorem printed_value {v : Int} (low : -2 ^ 63 < v) (high : v < 2 ^ 63) (buf : List Char) :
    (denotes (printed buf v) = some ((v : ℚ) / 1000) ↔ FullRemainder v) ∧
      ∀ w : Int, -2 ^ 63 < w → w < 2 ^ 63 → FullRemainder v → FullRemainder w → ∀ buf',
        ∃ x y, denotes (printed buf v) = some x ∧ denotes (printed buf' w) = some y ∧ (x < y ↔ v < w) := by
  have exact_iff : ∀ {u : Int}, -2 ^ 63 < u → u < 2 ^ 63 → ∀ buf,
      (denotes (printed buf u) = some ((u : ℚ) / 1000) ↔ FullRemainder u) := by
    intro u low high buf
    have nonzero : sign u ≠ 0 := by
      unfold sign
      split_ifs <;> norm_num
    rw [printed_denotes low high, value_parts, Option.some.injEq, mul_right_inj' nonzero, add_right_inj,
      fraction_exact_iff low high]
  refine ⟨exact_iff low high buf, ?_⟩
  intro w below above full full' buf'
  refine ⟨_, _, (exact_iff low high buf).mpr full, (exact_iff below above buf').mpr full', ?_⟩
  rw [div_lt_div_iff_of_pos_right (by norm_num), Int.cast_lt]

theorem printed_value_temperature :
    (denotes (printed [] 24873) = some ((24873 : Int) / 1000 : ℚ) ↔ FullRemainder 24873) ∧
      ∀ w : Int, -2 ^ 63 < w → w < 2 ^ 63 → FullRemainder 24873 → FullRemainder w → ∀ buf',
        ∃ x y, denotes (printed [] 24873) = some x ∧ denotes (printed buf' w) = some y ∧ (x < y ↔ 24873 < w) :=
  printed_value (by decide) (by decide) []

/-- The temperature of the raw value 2, which is -83.037, is printed as -83,37. -/
theorem printed_without_zero :
    ¬ ∀ v : Int, -2 ^ 63 < v → v < 2 ^ 63 → ∀ buf, denotes (printed buf v) = some ((v : ℚ) / 1000) := by
  intro exact_text
  have read := exact_text (-83037) (by decide) (by decide) []
  have text : printed [] (-83037) = ['-', '8', '3', ',', '3', '7'] := by decide +kernel
  rw [text] at read
  have value : denotes ['-', '8', '3', ',', '3', '7'] = some (-(83 + 37 / 100)) := by decide +kernel
  rw [value, Option.some.injEq] at read
  norm_num at read

end OsLab.Lunix
