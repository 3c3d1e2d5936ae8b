import Mathlib.Data.Rat.Defs
import Mathlib.Data.Rat.Cast.CharZero
import Mathlib.Tactic.FieldSimp
import Mathlib.Tactic.Ring

/-!
# Decimal numbers

What a text denotes as a signed decimal number, with a separator between the whole part and the
fraction.
-/

namespace Decimal

/-- The number that a nonempty list of digits denotes. -/
def natural (text : List Char) : Option Nat :=
  if text ≠ [] ∧ text.all Char.isDigit then some (Nat.ofDigitChars 10 text 0) else none

def unsigned (separator : Char) (text : List Char) : Option ℚ :=
  match text.dropWhile (· ≠ separator) with
  | [] => (natural text).map (↑·)
  | _ :: fraction => do
    let whole ← natural (text.takeWhile (· ≠ separator))
    let part ← natural fraction
    pure (whole + part / 10 ^ fraction.length)

def signed (separator : Char) : List Char → Option ℚ
  | '+' :: text => unsigned separator text
  | '-' :: text => (unsigned separator text).map (- ·)
  | text => unsigned separator text

theorem natural_digits {text : List Char} (some : text ≠ []) (digits : ∀ c ∈ text, c.isDigit) :
    natural text = Option.some (Nat.ofDigitChars 10 text 0) := by
  unfold natural
  rw [if_pos ⟨some, List.all_eq_true.mpr digits⟩]

theorem unsigned_fraction {separator : Char} {whole fraction : List Char} (between : ¬ separator.isDigit)
    (wholeSome : whole ≠ []) (wholeDigits : ∀ c ∈ whole, c.isDigit)
    (fractionSome : fraction ≠ []) (fractionDigits : ∀ c ∈ fraction, c.isDigit) :
    unsigned separator (whole ++ separator :: fraction) =
      some ((Nat.ofDigitChars 10 whole 0 : ℚ) + Nat.ofDigitChars 10 fraction 0 / 10 ^ fraction.length) := by
  have apart : ∀ c ∈ whole, (decide (c ≠ separator)) = true := by
    intro c member
    rw [decide_eq_true_eq]
    rintro rfl
    exact between (wholeDigits c member)
  have behind : (whole ++ separator :: fraction).dropWhile (· ≠ separator) = separator :: fraction := by
    rw [List.dropWhile_append_of_pos apart]
    simp
  have before : (whole ++ separator :: fraction).takeWhile (· ≠ separator) = whole := by
    rw [List.takeWhile_append_of_pos apart]
    simp
  unfold unsigned
  rw [behind]
  simp only
  rw [before, natural_digits wholeSome wholeDigits, natural_digits fractionSome fractionDigits]
  rfl

theorem digits_lt (text : List Char) (digits : ∀ c ∈ text, c.isDigit) :
    Nat.ofDigitChars 10 text 0 < 10 ^ text.length := by
  induction text with
  | nil => simp
  | cons c text ih =>
    have rest := ih fun d member => digits d (List.mem_cons_of_mem c member)
    have digit : c.toNat - '0'.toNat < 10 := by
      have bounds := digits c (by simp)
      rw [Char.isDigit, Bool.and_eq_true, decide_eq_true_eq, decide_eq_true_eq] at bounds
      have high : c.toNat ≤ 57 := bounds.2
      have zero : '0'.toNat = 48 := rfl
      omega
    rw [Nat.ofDigitChars_cons, Nat.ofDigitChars_eq_ofDigitChars_zero, List.length_cons, pow_succ, Nat.mul_zero, Nat.zero_add]
    have scaled := Nat.mul_le_mul_left (10 ^ text.length) (Nat.le_of_lt_succ digit)
    omega

/-- The first digits of a number denote it without its last digits. -/
theorem ofDigitChars_take (text : List Char) (digits : ∀ c ∈ text, c.isDigit) (k : Nat) :
    Nat.ofDigitChars 10 (text.take k) 0 = Nat.ofDigitChars 10 text 0 / 10 ^ (text.length - k) := by
  have last := digits_lt (text.drop k) fun c member => digits c (List.mem_of_mem_drop member)
  have whole : Nat.ofDigitChars 10 text 0 = Nat.ofDigitChars 10 (text.take k ++ text.drop k) 0 := by
    rw [List.take_append_drop]
  rw [Nat.ofDigitChars_append, @Nat.ofDigitChars_eq_ofDigitChars_zero (text.drop k), List.length_drop] at whole
  rw [List.length_drop] at last
  rw [whole, Nat.mul_add_div (Nat.pow_pos (by decide)), Nat.div_eq_of_lt last, Nat.add_zero]

end Decimal
