import Mathlib.Logic.Function.Basic

/-!
# Rings

Items that are written one after another into a ring. What the ring still holds of them, and
which of them later ones have replaced.
-/

namespace Ring

variable {α : Type*}

/-- The ring holds the last `size` of the items written so far. -/
def Holds (ring : Nat → α) (size : Nat) (written : List α) : Prop :=
  ∀ k < written.length, written.length ≤ k + size → written[k]? = some (ring (k % size))

theorem holds_nil (ring : Nat → α) (size : Nat) : Holds ring size [] :=
  fun _ before => absurd before (Nat.not_lt_zero _)

/-- Items less than `size` apart have different places. -/
theorem mod_ne {size k n : Nat} (before : k < n) (near : n < k + size) : k % size ≠ n % size := by
  intro same
  have apart : (n - k) % size = 0 := by
    rw [← Nat.sub_mod_eq_zero_of_mod_eq same.symm]
  rw [Nat.mod_eq_of_lt (by omega)] at apart
  omega

theorem Holds.push {ring : Nat → α} {size : Nat} {written : List α} (holds : Holds ring size written) (a : α) :
    Holds (Function.update ring (written.length % size) a) size (written ++ [a]) := by
  intro k before near
  rw [List.length_append, List.length_singleton] at before near
  rcases Nat.lt_or_ge k written.length with old | new
  · rw [List.getElem?_append_left old, Function.update_of_ne (mod_ne old (by omega))]
    exact holds k old (by omega)
  · obtain rfl : k = written.length := by omega
    rw [Function.update_self, List.getElem?_append_right (Nat.le_refl _), Nat.sub_self]
    rfl

end Ring
