import Mathlib.Logic.Basic

/-!
# Arrays with bounds

An access out of an array stops the computation with a fault.
-/

namespace Bounds

variable {ε α σ β : Type*}

def access (fault : ε) {n : Nat} (array : Fin n → α) (index : Nat) : Except ε α :=
  if bound : index < n then .ok (array ⟨index, bound⟩) else .error fault

theorem access_ok {fault : ε} {n : Nat} {array : Fin n → α} {index : Nat} (bound : index < n) :
    access fault array index = .ok (array ⟨index, bound⟩) := dif_pos bound

theorem access_fault {fault : ε} {n : Nat} {array : Fin n → α} {index : Nat} (outside : n ≤ index) :
    access fault array index = .error fault := dif_neg (Nat.not_lt.mpr outside)

/-- A step that keeps an invariant and does not fault there never faults in a run. -/
theorem foldlM_ok {step : σ → β → Except ε σ} {I : σ → Prop} {events : List β}
    (keeps : ∀ s, I s → ∀ e ∈ events, ∃ t, step s e = .ok t ∧ I t) {s : σ} (start : I s) :
    ∃ t, events.foldlM step s = .ok t ∧ I t := by
  induction events generalizing s with
  | nil => exact ⟨s, rfl, start⟩
  | cons e events ih =>
    obtain ⟨t, one, kept⟩ := keeps s start e (List.mem_cons_self ..)
    obtain ⟨u, rest, last⟩ := ih (fun s inv e member => keeps s inv e (List.mem_cons_of_mem _ member)) kept
    refine ⟨u, ?_, last⟩
    rw [List.foldlM_cons, one]
    exact rest

end Bounds
