import Mathlib.Data.List.Basic

/-!
# Sampled values

Values that overwrite each other, and a reader that is shown the latest one when its stamp is not that
of the value shown last. What the reader takes is a part of what was written, in its order, with no value
taken twice.
-/

namespace Sampling

variable {α κ : Type*}

/-- `shown` is the value the reader was shown last; it takes some of those and loses the others. -/
structure Sampled (α : Type*) where
  written : List α
  shown : Option α
  taken : List α

namespace Sampled

def start : Sampled α := ⟨[], none, []⟩

def latest (s : Sampled α) : Option α := s.written.getLast?

def write (as : List α) (s : Sampled α) : Sampled α := { s with written := s.written ++ as }

/-- The reader is shown the value `a`. -/
def sample (kept : Bool) (a : α) (s : Sampled α) : Sampled α :=
  { s with shown := some a, taken := if kept then s.taken ++ [a] else s.taken }

@[simp] theorem write_written (as : List α) (s : Sampled α) : (s.write as).written = s.written ++ as := rfl
@[simp] theorem write_shown (as : List α) (s : Sampled α) : (s.write as).shown = s.shown := rfl
@[simp] theorem write_taken (as : List α) (s : Sampled α) : (s.write as).taken = s.taken := rfl
@[simp] theorem sample_written (kept : Bool) (a : α) (s : Sampled α) : (s.sample kept a).written = s.written := rfl
@[simp] theorem sample_shown (kept : Bool) (a : α) (s : Sampled α) : (s.sample kept a).shown = some a := rfl

/-- What was taken lies in the part of what was written that ends with the value shown last. -/
def Ordered (s : Sampled α) : Prop :=
  ∃ seen rest, s.written = seen ++ rest ∧ s.taken.Sublist seen ∧ s.shown = seen.getLast?

theorem ordered_start : Ordered (start : Sampled α) := ⟨[], [], rfl, List.Sublist.refl _, rfl⟩

variable {s : Sampled α}

theorem Ordered.sublist (ordered : Ordered s) : s.taken.Sublist s.written := by
  obtain ⟨seen, rest, written, taken, -⟩ := ordered
  rw [written]
  exact taken.trans (List.sublist_append_left _ _)

theorem Ordered.write (ordered : Ordered s) (as : List α) : Ordered (s.write as) := by
  obtain ⟨seen, rest, written, taken, shown⟩ := ordered
  exact ⟨seen, rest ++ as, by simp [written], taken, shown⟩

/-- A fresh stamp says that something was written behind the value shown last. -/
theorem Ordered.latest_some (ordered : Ordered s) (stamp : Option α → κ) (fresh : stamp s.latest ≠ stamp s.shown) :
    ∃ a, s.latest = some a := by
  obtain ⟨seen, rest, written, -, shown⟩ := ordered
  cases last : s.latest with
  | some a => exact ⟨a, rfl⟩
  | none =>
    have empty := List.getLast?_eq_none_iff.mp last
    obtain ⟨rfl, -⟩ := List.append_eq_nil_iff.mp (written.symm.trans empty)
    rw [shown, last] at fresh
    exact absurd rfl fresh

theorem Ordered.sample (ordered : Ordered s) {stamp : Option α → κ} (fresh : stamp s.latest ≠ stamp s.shown)
    (kept : Bool) {a : α} (last : s.latest = some a) : Ordered (s.sample kept a) := by
  obtain ⟨seen, rest, written, taken, shown⟩ := ordered
  refine ⟨s.written, [], (List.append_nil _).symm, ?_, last.symm⟩
  -- the value is not the one shown last, so it stands behind it
  obtain ⟨front, rfl⟩ : ∃ front, rest = front ++ [a] := by
    rcases List.eq_nil_or_concat rest with rfl | ⟨front, b, rfl⟩
    · rw [List.append_nil] at written
      rw [latest, written, shown] at fresh
      exact absurd rfl fresh
    · rw [List.concat_eq_append] at written ⊢
      rw [latest, written, ← List.append_assoc, List.getLast?_concat] at last
      exact ⟨front, by rw [Option.some.inj last]⟩
  rw [written, ← List.append_assoc]
  cases kept with
  | true => exact (taken.trans (List.sublist_append_left _ _)).append (List.Sublist.refl _)
  | false => exact (taken.trans (List.sublist_append_left _ _)).trans (List.sublist_append_left _ _)

end Sampled

end Sampling
