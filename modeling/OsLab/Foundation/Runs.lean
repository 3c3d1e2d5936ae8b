import Mathlib.Logic.Relation

/-!
# Runs

Runs of a labelled transition system: what every step keeps holds along a whole run, and a
simulation of single steps is a simulation of runs.
-/

namespace Runs

variable {σ τ ε : Type*}

inductive Steps (step : σ → ε → σ → Prop) : σ → List ε → σ → Prop
  | nil (s : σ) : Steps step s [] s
  | cons {s t u : σ} {e : ε} {es : List ε} : step s e t → Steps step t es u → Steps step s (e :: es) u

variable {step : σ → ε → σ → Prop} {s t u : σ}

namespace Steps

theorem invariant {I : σ → Prop} (keeps : ∀ s e t, I s → step s e t → I t) {es : List ε}
    (run : Steps step s es t) (start : I s) : I t := by
  induction run with
  | nil => exact start
  | cons one _ ih => exact ih (keeps _ _ _ start one)

/-- A simulation of single steps, under a condition that the steps keep, is one of runs. -/
theorem simulates {abstract : τ → ε → τ → Prop} {R : σ → τ → Prop}
    (matched : ∀ s e t a, R s a → step s e t → ∃ b, abstract a e b ∧ R t b) {es : List ε}
    (run : Steps step s es t) {a : τ} (related : R s a) :
    ∃ b, Steps abstract a es b ∧ R t b := by
  induction run generalizing a with
  | nil => exact ⟨a, .nil a, related⟩
  | cons one _ ih =>
    obtain ⟨b, first, related⟩ := matched _ _ _ _ related one
    obtain ⟨c, rest, related⟩ := ih related
    exact ⟨c, .cons first rest, related⟩

/-- A run of several parties, as one of them sees it. -/
theorem project {δ : Type*} {party : τ → δ → τ → Prop} {view : σ → τ} {seen : ε → Option δ}
    (own : ∀ s e t d, step s e t → seen e = some d → party (view s) d (view t))
    (other : ∀ s e t, step s e t → seen e = none → view t = view s) {es : List ε}
    (run : Steps step s es t) : Steps party (view s) (es.filterMap seen) (view t) := by
  induction run with
  | nil => exact .nil _
  | @cons _ _ _ e _ one _ ih =>
    cases mine : seen e with
    | none =>
      rw [List.filterMap_cons_none mine, ← other _ _ _ one mine]
      exact ih
    | some d =>
      rw [List.filterMap_cons_some mine]
      exact .cons (own _ _ _ _ one mine) ih

end Steps

/-! ### Deterministic systems -/

variable {next : σ → ε → σ}

theorem foldl_invariant {I : σ → Prop} (keeps : ∀ s e, I s → I (next s e)) (start : I s) (es : List ε) :
    I (es.foldl next s) := by
  induction es generalizing s with
  | nil => exact start
  | cons e es ih => exact ih (keeps s e start)

end Runs
