import OsLab.Foundation.Traced
import Mathlib.Data.Multiset.AddSub

/-!
# Custody of references

A trace of references that are taken and dropped. `Custody h es h'` says that whoever holds the
references `h` can make the events `es` and holds `h'` behind them: nothing is dropped that is not
held.
-/

universe u

inductive RefEvent (κ : Type u) where
  | get (k : κ)
  | put (k : κ)
  deriving DecidableEq, Repr

variable {κ α β : Type u}

inductive Custody : Multiset κ → List (RefEvent κ) → Multiset κ → Prop
  | nil (h : Multiset κ) : Custody h [] h
  | get {h h' : Multiset κ} {k : κ} {es : List (RefEvent κ)} :
    Custody (k ::ₘ h) es h' → Custody h (.get k :: es) h'
  | put {h h' : Multiset κ} {k : κ} {es : List (RefEvent κ)} :
    Custody h es h' → Custody (k ::ₘ h) (.put k :: es) h'

/-- Every reference that is taken is dropped once. -/
def BalancedRefs (es : List (RefEvent κ)) : Prop := Custody 0 es 0

namespace Custody

variable {h h' h'' : Multiset κ} {es es' : List (RefEvent κ)}

theorem append (first : Custody h es h') (rest : Custody h' es' h'') : Custody h (es ++ es') h'' := by
  induction first with
  | nil => exact rest
  | get _ ih => exact .get (ih rest)
  | put _ ih => exact .put (ih rest)

theorem frame (custody : Custody h es h') (f : Multiset κ) : Custody (h + f) es (h' + f) := by
  induction custody with
  | nil => exact .nil _
  | get _ ih =>
    apply get
    rwa [Multiset.cons_add] at ih
  | put _ ih =>
    rw [Multiset.cons_add]
    exact .put ih

/-- The events determine what is held behind them. -/
theorem unique (custody : Custody h es h') (other : Custody h es h'') : h' = h'' := by
  induction custody with
  | nil =>
    cases other
    rfl
  | get _ ih =>
    cases other with
    | get other => exact ih other
  | @put h h' k es _ ih =>
    generalize same : k ::ₘ h = held at other
    cases other with
    | put other =>
      rw [Multiset.cons_inj_right] at same
      subst same
      exact ih other

theorem count [DecidableEq κ] (custody : Custody h es h') (k : κ) :
    h'.count k + es.count (.put k) = h.count k + es.count (.get k) := by
  induction custody with
  | nil => rfl
  | @get h h' l es _ ih =>
    rw [Multiset.count_cons] at ih
    rw [List.count_cons, List.count_cons]
    by_cases same : l = k
    · subst same
      simp at ih ⊢
      omega
    · have other : k ≠ l := fun equal => same equal.symm
      simp [same, other] at ih ⊢
      omega
  | @put h h' l es _ ih =>
    rw [Multiset.count_cons, List.count_cons, List.count_cons]
    by_cases same : l = k
    · subst same
      simp
      omega
    · have other : k ≠ l := fun equal => same equal.symm
      simp [same, other]
      omega

end Custody

/-- Of every reference the count is behind balanced events what it was before them. -/
theorem BalancedRefs.count [DecidableEq κ] {es : List (RefEvent κ)} (balanced : BalancedRefs es) (k : κ) :
    es.count (.put k) = es.count (.get k) := by
  have counts := Custody.count balanced k
  simpa using counts

/-! ### Traced computations -/

/-- The computation holds `pre` at its start and what `post` says of its value at its end. -/
def HoldsRefs (pre : Multiset κ) (x : Traced (RefEvent κ) α) (post : α → Multiset κ) : Prop :=
  Custody pre x.events (post x.value)

namespace HoldsRefs

open Traced

variable {pre : Multiset κ} {mid : α → Multiset κ} {post : β → Multiset κ}

theorem pure {a : α} (same : pre = mid a) : HoldsRefs pre (pure a) mid := same ▸ Custody.nil pre

theorem bind_value {x : Traced (RefEvent κ) α} {f : α → Traced (RefEvent κ) β} (first : HoldsRefs pre x mid)
    (rest : HoldsRefs (mid x.value) (f x.value) post) : HoldsRefs pre (x >>= f) post :=
  Custody.append first rest

theorem bind {x : Traced (RefEvent κ) α} {f : α → Traced (RefEvent κ) β} (first : HoldsRefs pre x mid)
    (rest : ∀ a, HoldsRefs (mid a) (f a) post) : HoldsRefs pre (x >>= f) post :=
  bind_value first (rest x.value)

theorem get {k : κ} {f : PUnit → Traced (RefEvent κ) β} (rest : HoldsRefs (k ::ₘ pre) (f ⟨⟩) post) :
    HoldsRefs pre (emit (.get k) >>= f) post := Custody.get rest

theorem put {k : κ} {f : PUnit → Traced (RefEvent κ) β} (rest : HoldsRefs pre (f ⟨⟩) post) :
    HoldsRefs (k ::ₘ pre) (emit (.put k) >>= f) post := Custody.put rest

end HoldsRefs

/-! ### Computations that may not return

`Leaves` says of the references what `HoldsRefs` says, for a computation that comes to its end. -/

def Leaves (pre : Multiset κ) (x : OptionT (Traced (RefEvent κ)) α) (post : α → Multiset κ) : Prop :=
  ∀ a, x.run.value = some a → Custody pre x.run.events (post a)

namespace Leaves

open Traced

variable {pre pre' : Multiset κ} {mid : α → Multiset κ} {post : β → Multiset κ}

theorem pure {a : α} (same : pre = mid a) : Leaves pre (pure a) mid := by
  rintro _ ⟨⟩
  exact same ▸ Custody.nil pre

theorem never : Leaves pre (OptionT.fail : OptionT (Traced (RefEvent κ)) α) mid := by
  rintro _ ⟨⟩

/-- Of what follows, only the computations behind values that are reached matter. -/
theorem bind_reached {x : OptionT (Traced (RefEvent κ)) α} {f : α → OptionT (Traced (RefEvent κ)) β}
    (first : Leaves pre x mid) (rest : ∀ a, x.run.value = some a → Leaves (mid a) (f a) post) :
    Leaves pre (x >>= f) post := by
  intro b done
  rw [value_optionT_bind] at done
  obtain ⟨a, reached, done⟩ := Option.bind_eq_some_iff.mp done
  have events : (x >>= f).run.events = x.run.events ++ (f a).run.events := by
    rw [OptionT.run_bind, Option.elimM, events_bind, reached]
    rfl
  rw [events]
  exact Custody.append (first a reached) (rest a reached b done)

theorem bind {x : OptionT (Traced (RefEvent κ)) α} {f : α → OptionT (Traced (RefEvent κ)) β} (first : Leaves pre x mid)
    (rest : ∀ a, Leaves (mid a) (f a) post) : Leaves pre (x >>= f) post :=
  bind_reached first fun a _ => rest a

theorem get {k : κ} : Leaves pre (OptionT.lift (emit (.get k))) fun _ => k ::ₘ pre :=
  fun _ _ => Custody.get (Custody.nil _)

theorem put {k : κ} (held : pre = k ::ₘ pre') : Leaves pre (OptionT.lift (emit (.put k))) fun _ => pre' := by
  subst held
  exact fun _ _ => Custody.put (Custody.nil _)

theorem frame {x : OptionT (Traced (RefEvent κ)) α} (leaves : Leaves pre x mid) (f : Multiset κ) :
    Leaves (pre + f) x fun a => mid a + f :=
  fun a done => Custody.frame (leaves a done) f

end Leaves
