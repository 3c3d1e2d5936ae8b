import Mathlib.Data.List.TakeWhile
import Mathlib.Algebra.Order.Ring.Nat

/-!
# Texts of C

Texts are lists of bytes, written as characters, and end before the first NUL.
-/

namespace CText

def nul : Char := '\x00'

def text (bytes : List Char) : List Char := bytes.takeWhile (· ≠ nul)

theorem text_cons {c : Char} (bytes : List Char) (some : c ≠ nul) : text (c :: bytes) = c :: text bytes :=
  List.takeWhile_cons_of_pos (decide_eq_true some)

theorem text_nul (bytes : List Char) : text (nul :: bytes) = [] :=
  List.takeWhile_cons_of_neg (by simp)

/-- A text without its terminator. -/
structure CString where
  chars : List Char
  noNul : nul ∉ chars

theorem text_terminated {s : List Char} (plain : nul ∉ s) (rest : List Char) : text (s ++ nul :: rest) = s := by
  have kept : ∀ c ∈ s, decide (c ≠ nul) = true := by
    intro c member
    exact decide_eq_true fun same => plain (same ▸ member)
  rw [text, List.takeWhile_append_of_pos kept, ← text, text_nul, List.append_nil]

theorem text_plain (bytes : List Char) : nul ∉ text bytes := by
  intro member
  have other : decide (nul ≠ nul) = true := List.mem_takeWhile_imp (p := fun c => decide (c ≠ nul)) member
  exact of_decide_eq_true other rfl

theorem text_of_plain {bytes : List Char} (plain : nul ∉ bytes) : text bytes = bytes :=
  List.takeWhile_eq_self_iff.mpr fun _ member => decide_eq_true fun same => plain (same ▸ member)

theorem text_split {bytes : List Char} (ends : nul ∈ bytes) : ∃ rest, bytes = text bytes ++ nul :: rest := by
  obtain ⟨s, rest, rfl, plain⟩ := List.eq_append_cons_of_mem ends
  exact ⟨rest, by rw [text_terminated plain]⟩

/-- A comparison with a word is the same on the bytes and on their text. -/
theorem prefix_text {word : List Char} (plain : nul ∉ word) (bytes : List Char) :
    word <+: text bytes ↔ word <+: bytes := by
  induction word generalizing bytes with
  | nil => exact iff_of_true List.nil_prefix List.nil_prefix
  | cons c word ih =>
    have first : c ≠ nul := fun same => plain (same ▸ List.mem_cons_self)
    have others : nul ∉ word := fun member => plain (List.mem_cons_of_mem c member)
    cases bytes with
    | nil => exact Iff.rfl
    | cons b bytes =>
      by_cases same : c = b
      · subst same
        rw [text_cons bytes first, List.cons_prefix_cons, List.cons_prefix_cons, ih others]
      · refine iff_of_false (fun starts => same ?_) (fun starts => same (List.cons_prefix_cons.mp starts).1)
        exact (List.cons_prefix_cons.mp (starts.trans (List.takeWhile_prefix _))).1

/-! ### Numbers -/

def isspace (c : Char) : Bool := c = ' ' ∨ ('\t'.toNat ≤ c.toNat ∧ c.toNat ≤ '\r'.toNat)

/-- The longest run of digits as a number. -/
def magnitude (bytes : List Char) : Nat := Nat.ofDigitChars 10 (bytes.takeWhile Char.isDigit) 0

/-- `strtol` in base ten, whose result stays between `LONG_MIN` and `LONG_MAX`. -/
def strtol (bytes : List Char) : Int :=
  match bytes.dropWhile isspace with
  | '-' :: bytes => max (-magnitude bytes) (-2 ^ 63)
  | '+' :: bytes => min (magnitude bytes) (2 ^ 63 - 1)
  | bytes => min (magnitude bytes) (2 ^ 63 - 1)

/-- A `long` as an `int`. -/
def toInt (v : Int) : Int := Int.bmod v (2 ^ 32)

def atoi (bytes : List Char) : Int := toInt (strtol bytes)

end CText
