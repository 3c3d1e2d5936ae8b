import OsLab.Foundation.Transducer

/-!
# Words that reset a machine

What a word does to all states of a kind at once. A word that takes all of them to one state
makes up for whatever the machine has been fed before.
-/

namespace Transducer

variable {σ α β : Type*} {step : σ → α → σ × List β} {I J K : σ → Prop} {v w : List α}

/-- `w` takes the states of `I` to states of `J`. -/
def Leads (step : σ → α → σ × List β) (I : σ → Prop) (w : List α) (J : σ → Prop) : Prop :=
  ∀ s, I s → J (run step s w).1

theorem Leads.append (first : Leads step I v J) (second : Leads step J w K) : Leads step I (v ++ w) K := by
  intro s start
  rw [run_append]
  exact second _ (first s start)

theorem Leads.again {J : Nat → σ → Prop} (each : ∀ n, Leads step (J n) w (J (n + 1))) (n : Nat) :
    Leads step (J 0) (List.replicate n w).flatten (J n) := by
  induction n with
  | zero => exact fun _ start => start
  | succ n ih =>
    rw [List.replicate_succ', List.flatten_append, List.flatten_singleton]
    exact ih.append (each n)

/-- A machine that comes closer to its next output with every input gives one in time. -/
theorem run_outputs {left : σ → Nat} (keeps : ∀ s x, I s → I (step s x).1) (positive : ∀ s, I s → 0 < left s)
    (closer : ∀ s x, I s → (step s x).2 = [] → left (step s x).1 < left s) {s : σ} (start : I s) (long : left s ≤ w.length) :
    (run step s w).2 ≠ [] := by
  induction w generalizing s with
  | nil => exact absurd (positive s start) (Nat.not_lt.mpr long)
  | cons x w ih =>
    rw [run_cons]
    by_cases quiet : (step s x).2 = []
    · have less := closer s x start quiet
      rw [List.length_cons] at long
      rw [quiet, List.nil_append]
      exact ih (keeps s x start) (by omega)
    · exact fun none => quiet (List.append_eq_nil_iff.mp none).1

end Transducer
