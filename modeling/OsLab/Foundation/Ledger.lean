import Mathlib.Algebra.Order.BigOperators.Group.Finset
import Mathlib.Data.Int.ModEq
import Mathlib.Data.Fintype.Basic
import Mathlib.Tactic.Ring

/-!
# Counters behind concurrent calls

A counter that calls update some steps after the fact it counts. What a call in flight owes
the counter depends on where the call is, and the counter differs from the true count by
what all calls owe. `m` is the modulus of the counter, 0 for an exact one.
-/

namespace Ledger

variable {τ π : Type*} [Fintype τ] {debt : π → Int} {pc : τ → π}

def owed (debt : π → Int) (pc : τ → π) : Int := ∑ t, debt (pc t)

theorem owed_quiet (quiet : ∀ t, debt (pc t) = 0) : owed debt pc = 0 :=
  Finset.sum_eq_zero fun t _ => quiet t

theorem owed_nonneg (pc : τ → π) (nonneg : ∀ p, 0 ≤ debt p) : 0 ≤ owed debt pc := Finset.sum_nonneg fun t _ => nonneg (pc t)

theorem le_owed (pc : τ → π) (nonneg : ∀ p, 0 ≤ debt p) (t : τ) : debt (pc t) ≤ owed debt pc :=
  Finset.single_le_sum (fun u _ => nonneg (pc u)) (Finset.mem_univ t)

def Balanced (m : Int) (debt : π → Int) (pc : τ → π) (counter base : Int) : Prop :=
  counter ≡ base + owed debt pc [ZMOD m]

variable {m counter base counter' base' : Int}

theorem Balanced.quiet (balanced : Balanced m debt pc counter base) (quiet : ∀ t, debt (pc t) = 0) :
    counter ≡ base [ZMOD m] := by
  unfold Balanced at balanced
  rwa [owed_quiet quiet, add_zero] at balanced

theorem Balanced.of_quiet (exact : counter = base) (quiet : ∀ t, debt (pc t) = 0) : Balanced m debt pc counter base := by
  unfold Balanced
  rw [owed_quiet quiet, add_zero, exact]

theorem modEq_of_eq {a b : Int} (same : a = b) : a ≡ b [ZMOD m] := same ▸ Int.ModEq.refl a

/-- A 16-bit count that agrees modulo `2 ^ 16` with a number that fits. -/
theorem counter_exact {x n : Nat} (agrees : (x : Int) ≡ n [ZMOD 2 ^ 16]) (small : x < 2 ^ 16) (fits : n < 2 ^ 16) : x = n := by
  have same : (x : Int) % 2 ^ 16 = n % 2 ^ 16 := agrees
  omega

variable [DecidableEq τ]

theorem owed_update (t : τ) (p : π) :
    owed debt (Function.update pc t p) = owed debt pc - debt (pc t) + debt p := by
  unfold owed
  rw [← Finset.add_sum_erase _ _ (Finset.mem_univ t), ← Finset.add_sum_erase _ (fun u => debt (pc u)) (Finset.mem_univ t),
    Function.update_self]
  have rest : ∑ u ∈ Finset.univ.erase t, debt (Function.update pc t p u) = ∑ u ∈ Finset.univ.erase t, debt (pc u) :=
    Finset.sum_congr rfl fun u other => by rw [Function.update_of_ne (Finset.ne_of_mem_erase other)]
  rw [rest]
  ring

/-- A step of one call keeps the balance when the counter, the count and what the call owes move together. -/
theorem Balanced.step (balanced : Balanced m debt pc counter base) (t : τ) (p : π)
    (together : counter' - base' - debt p ≡ counter - base - debt (pc t) [ZMOD m]) :
    Balanced m debt (Function.update pc t p) counter' base' := by
  unfold Balanced at balanced ⊢
  rw [owed_update]
  have shifted := together.add (Int.ModEq.refl (base' + debt p))
  have moved : counter - base - debt (pc t) + (base' + debt p) ≡
      base + owed debt pc - base - debt (pc t) + (base' + debt p) [ZMOD m] :=
    ((balanced.sub (Int.ModEq.refl base)).sub (Int.ModEq.refl (debt (pc t)))).add (Int.ModEq.refl _)
  have sum := shifted.trans moved
  ring_nf at sum ⊢
  exact sum

theorem Balanced.step_eq (balanced : Balanced m debt pc counter base) (t : τ) (p : π)
    (together : counter' - base' - debt p = counter - base - debt (pc t)) :
    Balanced m debt (Function.update pc t p) counter' base' :=
  balanced.step t p (modEq_of_eq together)

/-- A step that moves the counter and what it owes, and not what is counted. -/
theorem Balanced.move (balanced : Balanced m debt pc counter base) {t : τ} {p : π}
    (moves : counter' - debt p = counter - debt (pc t)) :
    Balanced m debt (Function.update pc t p) counter' base :=
  balanced.step_eq t p (by omega)

theorem Balanced.local (balanced : Balanced m debt pc counter base) {t : τ} {p : π} (same : debt p = debt (pc t)) :
    Balanced m debt (Function.update pc t p) counter base :=
  balanced.move (by rw [same])

end Ledger
