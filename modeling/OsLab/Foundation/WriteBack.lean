import Mathlib.Logic.Function.Basic
import OsLab.Foundation.Runs

/-!
# Caches that write back

Records in memory over slots of a disk. A record that was set may be let go of when it has been
saved since. If a save shows in its own slot and leaves what the others show, whatever is loaded
is the record that was set last.
-/

namespace WriteBack
open Runs

/-- A save gives the disk and the record behind it. A refused one gives them too. -/
structure Disk (σ κ α : Type*) where
  loads : σ → κ → α → Prop
  saves : σ → κ → α → σ → α → Prop
  refuses : σ → κ → α → σ → α → Prop
  usable : κ → α → Prop

structure Cache (σ κ α : Type*) where
  disk : σ
  held : κ → Option α
  dirty : κ → Bool

inductive Event (κ α : Type*) where
  | load (k : κ)
  | set (k : κ) (a : α)
  | save (k : κ)
  | refuse (k : κ)
  | drop (k : κ)

variable {σ κ α : Type*} {d : Disk σ κ α} {s t : Cache σ κ α} {last : κ → Option α} {k : κ} {a : α}

inductive Step [DecidableEq κ] (d : Disk σ κ α) : Cache σ κ α → Event κ α → Cache σ κ α → Prop
  | load {s : Cache σ κ α} {k : κ} {a : α} : s.held k = none → d.loads s.disk k a →
      Step d s (.load k) ⟨s.disk, Function.update s.held k (some a), Function.update s.dirty k false⟩
  | set {s : Cache σ κ α} {k : κ} {a : α} : d.usable k a →
      Step d s (.set k a) ⟨s.disk, Function.update s.held k (some a), Function.update s.dirty k true⟩
  | save {s : Cache σ κ α} {k : κ} {a a' : α} {disk : σ} : s.held k = some a → s.dirty k = true → d.saves s.disk k a disk a' →
      Step d s (.save k) ⟨disk, Function.update s.held k (some a'), Function.update s.dirty k false⟩
  | refuse {s : Cache σ κ α} {k : κ} {a a' : α} {disk : σ} : s.held k = some a → d.refuses s.disk k a disk a' →
      Step d s (.refuse k) ⟨disk, Function.update s.held k (some a'), s.dirty⟩
  | drop {s : Cache σ κ α} {k : κ} : s.dirty k = false →
      Step d s (.drop k) ⟨s.disk, Function.update s.held k none, s.dirty⟩

/-- The records that were set last. -/
def note [DecidableEq κ] (last : κ → Option α) : Event κ α → κ → Option α
  | .set k a => Function.update last k (some a)
  | _ => last

/-- What makes a disk one of separate slots. `same` compares what a record was with what comes back of it. -/
structure Faithful (d : Disk σ κ α) (shows : σ → κ → α → Prop) (same : α → α → Prop) : Prop where
  refl : ∀ a, same a a
  loaded : ∀ {s k a b}, shows s k a → d.loads s k b → same a b
  saved : ∀ {s k a s' a'}, d.usable k a → d.saves s k a s' a' → same a a' ∧ shows s' k a
  kept : ∀ {s k a s' a' j b}, d.usable k a → d.saves s k a s' a' → d.usable j b → j ≠ k → shows s j b → shows s' j b
  refused : ∀ {s k a s' a'}, d.refuses s k a s' a' → s' = s ∧ a' = a

/-- The cache and the disk against the records that were set last. -/
structure Tracks (d : Disk σ κ α) (shows : σ → κ → α → Prop) (same : α → α → Prop) (last : κ → Option α) (s : Cache σ κ α) :
    Prop where
  usable : ∀ k a, last k = some a → d.usable k a
  dirty : ∀ k, s.dirty k = true → ∃ a, last k = some a ∧ s.held k = some a
  held : ∀ k a b, last k = some a → s.held k = some b → same a b
  clean : ∀ k a, last k = some a → s.dirty k = false → shows s.disk k a

variable {shows : σ → κ → α → Prop} {same : α → α → Prop}

theorem tracks_start (clean : ∀ k, s.dirty k = false) : Tracks d shows same (fun _ => none) s where
  usable _ _ none := nomatch none
  dirty k dirty := by
    rw [clean k] at dirty
    cases dirty
  held _ _ _ none := nomatch none
  clean _ _ none := nomatch none

theorem Tracks.unheld (tracks : Tracks d shows same last s) (unheld : s.held k = none) : s.dirty k = false := by
  by_contra dirty
  rw [Bool.not_eq_false] at dirty
  obtain ⟨a, -, held⟩ := tracks.dirty k dirty
  rw [unheld] at held
  cases held

variable [DecidableEq κ]

theorem Tracks.load (faithful : Faithful d shows same) (tracks : Tracks d shows same last s) (unheld : s.held k = none)
    (loads : d.loads s.disk k a) :
    Tracks d shows same last ⟨s.disk, Function.update s.held k (some a), Function.update s.dirty k false⟩ := by
  have clean := tracks.unheld unheld
  rw [← clean, Function.update_eq_self]
  refine ⟨tracks.usable, fun j dirty => ?_, fun j b c known held => ?_, tracks.clean⟩
  · have other : j ≠ k := by
      rintro rfl
      exact Bool.false_ne_true (clean.symm.trans dirty)
    simp only [Function.update_of_ne other]
    exact tracks.dirty j dirty
  · by_cases here : j = k
    · subst here
      simp only [Function.update_self, Option.some.injEq] at held
      exact held ▸ faithful.loaded (tracks.clean j b known clean) loads
    · simp only [Function.update_of_ne here] at held
      exact tracks.held j b c known held

theorem Tracks.set (faithful : Faithful d shows same) (tracks : Tracks d shows same last s) (usable : d.usable k a) :
    Tracks d shows same (Function.update last k (some a))
      ⟨s.disk, Function.update s.held k (some a), Function.update s.dirty k true⟩ := by
  refine ⟨fun j b known => ?_, fun j dirty => ?_, fun j b c known held => ?_, fun j b known clean => ?_⟩ <;> by_cases here : j = k
  · subst here
    simp only [Function.update_self, Option.some.injEq] at known
    exact known ▸ usable
  · simp only [Function.update_of_ne here] at known
    exact tracks.usable j b known
  · subst here
    exact ⟨a, Function.update_self _ _ _, Function.update_self _ _ _⟩
  · simp only [Function.update_of_ne here] at dirty ⊢
    exact tracks.dirty j dirty
  · subst here
    simp only [Function.update_self] at known held
    obtain rfl := Option.some.inj (known.symm.trans held)
    exact faithful.refl b
  · simp only [Function.update_of_ne here] at known held
    exact tracks.held j b c known held
  · subst here
    simp only [Function.update_self, Bool.true_eq_false] at clean
  · simp only [Function.update_of_ne here] at known clean
    exact tracks.clean j b known clean

theorem Tracks.save (faithful : Faithful d shows same) (tracks : Tracks d shows same last s) (held : s.held k = some a)
    (dirty : s.dirty k = true) {disk : σ} {a' : α} (saves : d.saves s.disk k a disk a') :
    Tracks d shows same last ⟨disk, Function.update s.held k (some a'), Function.update s.dirty k false⟩ := by
  obtain ⟨b, known, held'⟩ := tracks.dirty k dirty
  obtain rfl := Option.some.inj (held'.symm.trans held)
  have usable := tracks.usable k b known
  obtain ⟨kept, shown⟩ := faithful.saved usable saves
  refine ⟨tracks.usable, fun j dirty => ?_, fun j c e known' held => ?_, fun j c known' clean => ?_⟩ <;> by_cases here : j = k
  · subst here
    simp only [Function.update_self, Bool.false_eq_true] at dirty
  · simp only [Function.update_of_ne here] at dirty ⊢
    exact tracks.dirty j dirty
  · subst here
    simp only [Function.update_self, Option.some.injEq] at held
    obtain rfl := Option.some.inj (known.symm.trans known')
    exact held ▸ kept
  · simp only [Function.update_of_ne here] at held
    exact tracks.held j c e known' held
  · subst here
    obtain rfl := Option.some.inj (known.symm.trans known')
    exact shown
  · simp only [Function.update_of_ne here] at clean
    exact faithful.kept usable saves (tracks.usable j c known') here (tracks.clean j c known' clean)

theorem Tracks.drop (tracks : Tracks d shows same last s) (clean : s.dirty k = false) :
    Tracks d shows same last ⟨s.disk, Function.update s.held k none, s.dirty⟩ := by
  refine ⟨tracks.usable, fun j dirty => ?_, fun j b c known held => ?_, tracks.clean⟩ <;> by_cases here : j = k
  · subst here
    exact absurd (clean.symm.trans dirty) Bool.false_ne_true
  · simp only [Function.update_of_ne here]
    exact tracks.dirty j dirty
  · subst here
    simp only [Function.update_self, reduceCtorEq] at held
  · simp only [Function.update_of_ne here] at held
    exact tracks.held j b c known held

theorem Tracks.step (faithful : Faithful d shows same) (tracks : Tracks d shows same last s) {e : Event κ α} (step : Step d s e t) :
    Tracks d shows same (note last e) t := by
  cases step with
  | load unheld loads => exact tracks.load faithful unheld loads
  | set usable => exact tracks.set faithful usable
  | save held dirty saves => exact tracks.save faithful held dirty saves
  | refuse held refuses =>
    obtain ⟨rfl, rfl⟩ := faithful.refused refuses
    rw [← held, Function.update_eq_self]
    exact tracks
  | drop clean => exact tracks.drop clean

theorem Tracks.run (faithful : Faithful d shows same) (tracks : Tracks d shows same last s) {events : List (Event κ α)}
    (run : Steps (Step d) s events t) : Tracks d shows same (events.foldl note last) t := by
  induction run generalizing last with
  | nil => exact tracks
  | cons one _ ih => exact ih (tracks.step faithful one)

end WriteBack
