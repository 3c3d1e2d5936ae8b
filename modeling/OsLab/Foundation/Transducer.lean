import Mathlib.Data.List.Basic

/-!
# Buffered transducers

A transducer consumes one buffer per call and emits a list of outputs.
`feed` runs it over consecutive buffers. `feed_eq_flatten` says when the cuts
between the buffers cannot be observed.
-/

namespace Transducer

variable {σ α β : Type*}

/-- The calls of `f` on consecutive buffers, with the outputs of all of them in order. -/
def feed (f : σ → List α → σ × List β) (s : σ) : List (List α) → σ × List β
  | [] => (s, [])
  | buf :: bufs => ((feed f (f s buf).1 bufs).1, (f s buf).2 ++ (feed f (f s buf).1 bufs).2)

@[simp] theorem feed_nil (f : σ → List α → σ × List β) (s : σ) : feed f s [] = (s, []) := rfl

theorem feed_cons (f : σ → List α → σ × List β) (s : σ) (buf : List α) (bufs : List (List α)) :
    feed f s (buf :: bufs) =
      ((feed f (f s buf).1 bufs).1, (f s buf).2 ++ (feed f (f s buf).1 bufs).2) := rfl

theorem feed_singleton (f : σ → List α → σ × List β) (s : σ) (buf : List α) :
    feed f s [buf] = f s buf := by
  simp [feed_cons]

theorem feed_invariant {f : σ → List α → σ × List β} {I : σ → Prop}
    (keep : ∀ s buf, I s → I (f s buf).1) {s : σ} (start : I s) (bufs : List (List α)) :
    I (feed f s bufs).1 := by
  induction bufs generalizing s with
  | nil => exact start
  | cons buf bufs ih => exact ih (keep s buf start)

/-- `f` splits on the inputs in `Live`: one call on `a ++ b` is a call on `a` and a call on `b`. -/
structure Splits (f : σ → List α → σ × List β) (Live : σ → List α → Prop) : Prop where
  nil : ∀ s, Live s [] → f s [] = (s, [])
  append : ∀ s a b, Live s (a ++ b) →
    f s (a ++ b) = ((f (f s a).1 b).1, (f s a).2 ++ (f (f s a).1 b).2)
  rest : ∀ s a b, Live s (a ++ b) → Live (f s a).1 b

/-- On live input the cuts between the buffers cannot be observed. -/
theorem feed_eq_flatten {f : σ → List α → σ × List β} {Live : σ → List α → Prop}
    (split : Splits f Live) {s : σ} {bufs : List (List α)} (live : Live s bufs.flatten) :
    feed f s bufs = f s bufs.flatten := by
  induction bufs generalizing s with
  | nil => exact (split.nil s live).symm
  | cons buf bufs ih =>
    rw [List.flatten_cons] at live ⊢
    rw [feed_cons, ih (split.rest s buf _ live), split.append s buf _ live]

/-- A machine that consumes one input at a time. -/
def run (step : σ → α → σ × List β) (s : σ) : List α → σ × List β
  | [] => (s, [])
  | x :: xs => ((run step (step s x).1 xs).1, (step s x).2 ++ (run step (step s x).1 xs).2)

@[simp] theorem run_nil (step : σ → α → σ × List β) (s : σ) : run step s [] = (s, []) := rfl

theorem run_cons (step : σ → α → σ × List β) (s : σ) (x : α) (xs : List α) :
    run step s (x :: xs) =
      ((run step (step s x).1 xs).1, (step s x).2 ++ (run step (step s x).1 xs).2) := rfl

theorem run_append (step : σ → α → σ × List β) (s : σ) (xs ys : List α) :
    run step s (xs ++ ys) =
      ((run step (run step s xs).1 ys).1, (run step s xs).2 ++ (run step (run step s xs).1 ys).2) := by
  induction xs generalizing s with
  | nil => simp
  | cons x xs ih => simp only [List.cons_append, run_cons, ih, List.append_assoc]

end Transducer
