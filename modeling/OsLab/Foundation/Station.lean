import Mathlib.Data.List.Basic

/-!
# A worker between two queues

A worker takes one piece of work at a time from a bounded queue and puts what it makes of it into another
one. Nothing is lost, made twice or reordered, and the worker is stuck between the queues only when both
are full.
-/

namespace Stations

variable {α β : Type*}

/-- `sent` is all that came into the first queue, `taken` all that came out of the second. -/
structure Station (α β : Type*) where
  sent : List α
  input : List α
  held : Option β
  output : List β
  taken : List β

namespace Station

def empty : Station α β := ⟨[], [], none, [], []⟩

/-! ### Operations -/

def put (capacity : Nat) (a : α) (s : Station α β) : Option (Station α β) :=
  if s.input.length < capacity then some { s with sent := s.sent ++ [a], input := s.input ++ [a] } else none

/-- `work` is not defined on every piece. -/
def receive (work : α → Option β) (s : Station α β) : Option (Station α β) :=
  match s.held, s.input with
  | none, a :: rest => (work a).map fun b => { s with held := some b, input := rest }
  | _, _ => none

def reply (capacity : Nat) (s : Station α β) : Option (Station α β) :=
  match s.held with
  | some b => if s.output.length < capacity then some { s with held := none, output := s.output ++ [b] } else none
  | none => none

def take (s : Station α β) : Option (Station α β) :=
  match s.output with
  | b :: rest => some { s with output := rest, taken := s.taken ++ [b] }
  | [] => none

/-- What is between the ends of the station. -/
def load (s : Station α β) : Nat := s.input.length + s.held.toList.length + s.output.length

variable {capacity : Nat} {work : α → Option β} {s t : Station α β}

theorem put_some {a : α} (done : s.put capacity a = some t) :
    s.input.length < capacity ∧ t = { s with sent := s.sent ++ [a], input := s.input ++ [a] } := by
  unfold put at done
  split_ifs at done with room
  exact ⟨room, (Option.some.inj done).symm⟩

theorem receive_some (done : s.receive work = some t) :
    ∃ a b rest, s.held = none ∧ s.input = a :: rest ∧ work a = some b ∧ t = { s with held := some b, input := rest } := by
  unfold receive at done
  cases held : s.held with
  | some b =>
    rw [held] at done
    cases done
  | none =>
    cases input : s.input with
    | nil =>
      rw [held, input] at done
      cases done
    | cons a rest =>
      rw [held, input] at done
      obtain ⟨b, made, same⟩ := Option.map_eq_some_iff.mp done
      exact ⟨a, b, rest, rfl, rfl, made, same.symm⟩

theorem reply_some (done : s.reply capacity = some t) :
    ∃ b, s.held = some b ∧ s.output.length < capacity ∧ t = { s with held := none, output := s.output ++ [b] } := by
  unfold reply at done
  cases held : s.held with
  | none =>
    rw [held] at done
    cases done
  | some b =>
    rw [held] at done
    simp only at done
    split_ifs at done with room
    exact ⟨b, rfl, room, (Option.some.inj done).symm⟩

theorem take_some (done : s.take = some t) :
    ∃ b rest, s.output = b :: rest ∧ t = { s with output := rest, taken := s.taken ++ [b] } := by
  unfold take at done
  cases output : s.output with
  | nil =>
    rw [output] at done
    cases done
  | cons b rest =>
    rw [output] at done
    exact ⟨b, rest, rfl, (Option.some.inj done).symm⟩

/-! ### Conservation -/

/-- What came out, what is made and what is still to be made, in this order, are made of what came in. -/
structure Conserved (capacity : Nat) (work : α → Option β) (s : Station α β) : Prop where
  made : ∃ done, s.sent = done ++ s.input ∧ done.map work = (s.taken ++ s.output ++ s.held.toList).map some
  input : s.input.length ≤ capacity
  output : s.output.length ≤ capacity

theorem conserved_empty : Conserved capacity work (empty : Station α β) :=
  ⟨⟨[], rfl, rfl⟩, Nat.zero_le _, Nat.zero_le _⟩

theorem Conserved.put (conserved : Conserved capacity work s) {a : α} (done : s.put capacity a = some t) :
    Conserved capacity work t ∧ t.load = s.load + 1 := by
  obtain ⟨room, rfl⟩ := put_some done
  obtain ⟨before, sent, made⟩ := conserved.made
  refine ⟨⟨⟨before, by rw [sent, List.append_assoc], made⟩, ?_, conserved.output⟩, ?_⟩
  · rw [List.length_append, List.length_singleton]
    omega
  · simp only [load, List.length_append, List.length_singleton]
    omega

theorem Conserved.receive (conserved : Conserved capacity work s) (done : s.receive work = some t) :
    Conserved capacity work t ∧ t.load = s.load := by
  obtain ⟨a, b, rest, held, input, works, rfl⟩ := receive_some done
  obtain ⟨before, sent, made⟩ := conserved.made
  have length := conserved.input
  rw [input] at sent length
  rw [held, Option.toList_none, List.append_nil] at made
  refine ⟨⟨⟨before ++ [a], by rw [sent, List.append_assoc]; rfl, ?_⟩, ?_, conserved.output⟩, ?_⟩
  · rw [List.map_append, made]
    simp [works]
  · rw [List.length_cons] at length
    exact Nat.le_of_succ_le length
  · simp only [load, held, input, Option.toList_none, Option.toList_some, List.length_cons, List.length_nil]

theorem Conserved.reply (conserved : Conserved capacity work s) (done : s.reply capacity = some t) :
    Conserved capacity work t ∧ t.load = s.load := by
  obtain ⟨b, held, room, rfl⟩ := reply_some done
  obtain ⟨before, sent, made⟩ := conserved.made
  rw [held] at made
  refine ⟨⟨⟨before, sent, by rw [made]; simp⟩, conserved.input, ?_⟩, ?_⟩
  · rw [List.length_append, List.length_singleton]
    omega
  · simp only [load, held, Option.toList_none, Option.toList_some, List.length_append, List.length_singleton, List.length_nil]
    omega

theorem Conserved.take (conserved : Conserved capacity work s) (done : s.take = some t) :
    Conserved capacity work t ∧ t.load + 1 = s.load := by
  obtain ⟨b, rest, output, rfl⟩ := take_some done
  obtain ⟨before, sent, made⟩ := conserved.made
  have length := conserved.output
  rw [output] at made length
  refine ⟨⟨⟨before, sent, by rw [made]; simp⟩, conserved.input, ?_⟩, ?_⟩
  · rw [List.length_cons] at length
    exact Nat.le_of_succ_le length
  · simp only [load, output, List.length_cons]
    omega

/-! ### Progress -/

/-- A worker that has nothing to do and no room to put anything keeps no piece. -/
theorem stuck_full (defined : ∀ a ∈ s.input, (work a).isSome) (waiting : s.input ≠ [])
    (receives : s.receive work = none) (replies : s.reply capacity = none) :
    s.held.isSome ∧ capacity ≤ s.output.length := by
  obtain ⟨a, rest, input⟩ := List.exists_cons_of_ne_nil waiting
  cases held : s.held with
  | none =>
    obtain ⟨b, works⟩ := Option.isSome_iff_exists.mp (defined a (by rw [input]; exact List.mem_cons_self))
    rw [receive, held, input] at receives
    simp [works] at receives
  | some b =>
    refine ⟨rfl, ?_⟩
    rw [reply, held] at replies
    by_contra less
    simp only at replies
    rw [if_pos (by omega)] at replies
    cases replies

theorem stuck_empty (room : 0 < capacity) (defined : ∀ a ∈ s.input, (work a).isSome)
    (receives : s.receive work = none) (replies : s.reply capacity = none) (empty : s.output = []) : s.load = 0 := by
  have noInput : s.input = [] := by
    by_contra waiting
    have full := (stuck_full defined waiting receives replies).2
    rw [empty, List.length_nil] at full
    omega
  cases held : s.held with
  | none => simp [load, noInput, held, empty]
  | some b =>
    rw [reply, held, empty] at replies
    simp [room] at replies

end Station

end Stations
