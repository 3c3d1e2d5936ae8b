import Mathlib.Data.List.Basic

/-!
# Computations with a trace

A value together with the events on the way to it. Without its events a traced function is the
function it traces.
-/

universe u

structure Traced (ε : Type u) (α : Type u) where
  events : List ε
  value : α

namespace Traced

variable {ε α β : Type u}

instance : Monad (Traced ε) where
  pure a := ⟨[], a⟩
  bind x f := ⟨x.events ++ (f x.value).events, (f x.value).value⟩

def emitAll (es : List ε) : Traced ε PUnit := ⟨es, ⟨⟩⟩

def emit (e : ε) : Traced ε PUnit := emitAll [e]

@[simp] theorem value_pure (a : α) : (pure a : Traced ε α).value = a := rfl

@[simp] theorem events_pure (a : α) : (pure a : Traced ε α).events = [] := rfl

@[simp] theorem value_bind (x : Traced ε α) (f : α → Traced ε β) : (x >>= f).value = (f x.value).value := rfl

@[simp] theorem events_bind (x : Traced ε α) (f : α → Traced ε β) :
    (x >>= f).events = x.events ++ (f x.value).events := rfl

@[simp] theorem value_emitAll (es : List ε) : (emitAll es).value = ⟨⟩ := rfl

@[simp] theorem events_emitAll (es : List ε) : (emitAll es).events = es := rfl

@[simp] theorem value_emit (e : ε) : (emit e).value = ⟨⟩ := rfl

@[simp] theorem events_emit (e : ε) : (emit e).events = [e] := rfl

@[simp] theorem value_ite (c : Prop) [Decidable c] (x y : Traced ε α) :
    (if c then x else y).value = if c then x.value else y.value := by
  split <;> rfl

@[simp] theorem events_ite (c : Prop) [Decidable c] (x y : Traced ε α) :
    (if c then x else y).events = if c then x.events else y.events := by
  split <;> rfl

/-! ### Safety -/

/-- All events are allowed, and the value meets the postcondition. -/
structure Safe (allowed : ε → Prop) (post : α → Prop) (x : Traced ε α) : Prop where
  events : ∀ e ∈ x.events, allowed e
  value : post x.value

variable {allowed : ε → Prop} {mid : α → Prop} {post : β → Prop}

theorem Safe.pure {a : α} (holds : mid a) : Safe allowed mid (pure a) :=
  ⟨fun _ member => absurd member List.not_mem_nil, holds⟩

theorem Safe.bind {x : Traced ε α} {f : α → Traced ε β} (first : Safe allowed mid x)
    (rest : ∀ a, mid a → Safe allowed post (f a)) : Safe allowed post (x >>= f) := by
  have later := rest x.value first.value
  refine ⟨?_, later.value⟩
  intro e member
  rcases List.mem_append.mp member with early | late
  · exact first.events e early
  · exact later.events e late

theorem Safe.emitAll_bind {es : List ε} {f : PUnit → Traced ε β} (fine : ∀ e ∈ es, allowed e)
    (rest : Safe allowed post (f ⟨⟩)) : Safe allowed post (emitAll es >>= f) :=
  @Safe.bind _ _ _ allowed (fun _ => True) post _ _ ⟨fine, trivial⟩ fun _ _ => rest

theorem Safe.emit_bind {e : ε} {f : PUnit → Traced ε β} (fine : allowed e) (rest : Safe allowed post (f ⟨⟩)) :
    Safe allowed post (emit e >>= f) :=
  Safe.emitAll_bind (fun _ member => by rwa [List.mem_singleton.mp member]) rest

theorem Safe.weaken {x : Traced ε α} {post' : α → Prop} (safe : Safe allowed mid x) (weaker : ∀ a, mid a → post' a) :
    Safe allowed post' x := ⟨safe.events, weaker _ safe.value⟩

/-! ### Early exits -/

variable {err : Type u}

/-- All events of a computation that can leave early are allowed. -/
def Sound (allowed : ε → Prop) (x : ExceptT err (Traced ε) α) : Prop := ∀ e ∈ x.run.events, allowed e

theorem value_run_bind (x : ExceptT err (Traced ε) α) (f : α → ExceptT err (Traced ε) β) :
    (x >>= f).run.value = x.run.value >>= fun a => (f a).run.value := by
  show (x.run >>= ExceptT.bindCont f).value = _
  rw [value_bind]
  cases x.run.value <;> rfl

theorem value_run_ite (c : Prop) [Decidable c] (x y : ExceptT err (Traced ε) α) :
    (if c then x else y).run.value = if c then x.run.value else y.run.value := by
  split <;> rfl

theorem sound_pure (a : α) : Sound allowed (pure a : ExceptT err (Traced ε) α) :=
  fun _ member => absurd member List.not_mem_nil

/-- What follows needs to be sound for the values that are reached. -/
theorem sound_bind {x : ExceptT err (Traced ε) α} {f : α → ExceptT err (Traced ε) β} :
    Sound allowed (x >>= f) ↔ Sound allowed x ∧ ∀ a, x.run.value = .ok a → Sound allowed (f a) := by
  have events : (x >>= f).run.events = x.run.events ++ (ExceptT.bindCont f x.run.value).events := rfl
  unfold Sound
  rw [events, List.forall_mem_append]
  refine and_congr_right fun _ => ?_
  cases x.run.value with
  | error err =>
    refine ⟨fun _ a same => ?_, fun _ _ member => absurd member List.not_mem_nil⟩
    cases same
  | ok a =>
    refine ⟨fun rest _ same => ?_, fun rest => rest a rfl⟩
    cases same
    exact rest

theorem value_optionT_bind (x : OptionT (Traced ε) α) (f : α → OptionT (Traced ε) β) :
    (x >>= f).run.value = x.run.value.bind fun a => (f a).run.value := by
  rw [OptionT.run_bind, Option.elimM, value_bind]
  cases x.run.value <;> rfl

theorem value_optionT_ite (c : Prop) [Decidable c] (x y : OptionT (Traced ε) α) :
    (if c then x else y).run.value = if c then x.run.value else y.run.value := by
  split <;> rfl

end Traced
