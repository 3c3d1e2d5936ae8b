import OsLab.Foundation.Station
import OsLab.Projects.JobDispatch

/-!
# Jobs through the pipes

The parent of `project3` with its children: the pipes between them, the loop around `select` and the
loops of the children. No job is lost, none is done twice, and the parent never waits for a child that
waits for the parent.
-/

namespace OsLab.Projects
open Runs Stations

/-- `buffer++`, which is not defined for the greatest `int`. -/
def increment (buffer : Int) : Option Int := if buffer < 2 ^ 31 - 1 then some (buffer + 1) else none

/-- Where the parent stands: at `select`, in front of the line that `select` has announced, or in the loop
over the children that it has found ready. -/
inductive Phase where
  | select
  | line (ready : Nat → Bool)
  | collect (ready : Nat → Bool) (i : Nat)

/-- A child stands between its pipes `in[i]` and `out[i]`. -/
structure JobSystem where
  parent : Parent
  phase : Phase
  children : Nat → Station Int Int

/-- What the parent and the children do next. `stdin` says whether `select` finds a line to read. -/
inductive JobEvent where
  | select (stdin : Bool)
  | line (bytes : List Char)
  | readFails
  | collect
  | receive (child : Nat)
  | reply (child : Nat)

namespace JobSystem

variable (env : Environment) (prompt : List Char) (n capacity : Nat)

def put (i : Nat) (child : Station Int Int) (s : JobSystem) : JobSystem :=
  { s with children := Function.update s.children i child }

@[simp] theorem put_parent (i : Nat) (child : Station Int Int) (s : JobSystem) : (s.put i child).parent = s.parent := rfl

@[simp] theorem put_phase (i : Nat) (child : Station Int Int) (s : JobSystem) : (s.put i child).phase = s.phase := rfl

@[simp] theorem put_self (i : Nat) (child : Station Int Int) (s : JobSystem) : (s.put i child).children i = child :=
  Function.update_self ..

theorem put_of_ne {i j : Nat} (other : j ≠ i) (child : Station Int Int) (s : JobSystem) :
    (s.put i child).children j = s.children j := Function.update_of_ne other ..

/-- The parent's writes, in which it waits while the pipe is full. -/
def send (writes : List PipeWrite) (s : JobSystem) : Option JobSystem :=
  writes.foldlM (fun s w => ((s.children w.child).put capacity w.value).map fun child => s.put w.child child) s

def anyReady (ready : Nat → Bool) : Bool := (List.range n).any ready

/-- `none` when the event cannot happen now. Nothing happens behind the end of the parent, which takes its children
with it. -/
def step (s : JobSystem) (e : JobEvent) : Option JobSystem :=
  if s.parent.ending.isSome then none
  else
    match e, s.phase with
    | .select stdin, .select =>
      let ready := fun i => !(s.children i).output.isEmpty
      if stdin then some { s with phase := .line ready }
      else if anyReady n ready then some { s with phase := .collect ready 0 }
      else none
    | .line bytes, .line ready =>
      let parent := s.parent.readLine env prompt n bytes
      let phase := if (checkInput bytes).ret = some 0 then .collect ready 0 else .select
      (s.send capacity (parent.writes.drop s.parent.writes.length)).map fun s => { s with parent := parent, phase := phase }
    | .readFails, .line _ => some { s with phase := .select }
    | .collect, .collect ready i =>
      if i < n then
        if ready i then (s.children i).take.map fun child => { s.put i child with phase := .collect ready (i + 1) }
        else some { s with phase := .collect ready (i + 1) }
      else some { s with phase := .select }
    | .receive i, _ => if i < n then ((s.children i).receive increment).map fun child => s.put i child else none
    | .reply i, _ => if i < n then ((s.children i).reply capacity).map fun child => s.put i child else none
    | _, _ => none

def start : JobSystem := ⟨Parent.boot.create env n, .select, fun _ => .empty⟩

def run (events : List JobEvent) : Option JobSystem := events.foldlM (step env prompt n capacity) (start env n)

end JobSystem

/-! ### The writes for a line -/

namespace Parent

variable {env : Environment} {prompt : List Char} {n : Nat} {s : Parent}

theorem choose_created (created : Created env n s) (any : 0 < n) (few : n ≤ 50) (v : Nat) :
    ∃ c < n, Created env n (s.choose n v) ∧ (s.choose n v).sendTo = env.fork c ∧
      (s.choose n v).writes = s.writes ∧ (s.choose n v).jobs = s.jobs := by
  rw [choose_eq created any few]
  exact ⟨v % n, Nat.mod_lt v any, ⟨created.running, created.pids⟩, rfl, rfl, rfl⟩

/-- A job is written to one child, unless the counter of the jobs overflows. -/
theorem runJob_writes (created : Created env n s) (any : 0 < n) (few : n ≤ 50)
    (prompted : prompt = random ∨ prompt = roundRobin) (line : List Char) :
    (s.runJob env prompt n line).ending ≠ none ∧ (s.runJob env prompt n line).writes = s.writes ∨
      Created env n (s.runJob env prompt n line) ∧ ∃ c < n,
        (s.runJob env prompt n line).writes = s.writes ++ [⟨s.jobs, c, jobValue line⟩] := by
  rcases prompted with rfl | rfl
  · obtain ⟨c, inside, chosen, sendTo, writes, jobs⟩ :=
      choose_created (s := { s with rands := s.rands + 1 }) ⟨created.running, created.pids⟩ any few (env.rand s.rands)
    obtain ⟨indexes, sends⟩ := sendAll_eq (jobValue line) chosen few inside sendTo
    have ran : s.runJob env random n line =
        (choose n (env.rand s.rands) { s with rands := s.rands + 1 }).sendAll n (jobValue line) := by
      unfold runJob
      rw [if_pos rfl, chooseRandom, andThen_running chosen.running, if_neg (by decide), andThen_running chosen.running]
    rw [ran, sends, writes, jobs]
    exact Or.inr ⟨⟨chosen.running, chosen.pids⟩, c, inside, rfl⟩
  · by_cases room : s.iterator + 1 < 2 ^ 31
    · obtain ⟨still, -, -, writes⟩ := runJob_turn created any few line room rfl
      exact Or.inr ⟨still, _, Nat.mod_lt _ any, writes⟩
    · obtain ⟨ended, writes⟩ := runJob_overflow created any few line room
      exact Or.inl ⟨by rw [ended]; exact Option.some_ne_none _, writes⟩

/-- A line that is no job writes nothing, and one that is writes at most once. -/
theorem readLine_writes (created : Created env n s) (any : 0 < n) (few : n ≤ 50)
    (prompted : prompt = random ∨ prompt = roundRobin) (line : List Char) :
    ((s.readLine env prompt n line).ending = none → Created env n (s.readLine env prompt n line)) ∧
      ((s.readLine env prompt n line).writes = s.writes ∨ (checkInput line).ret = some 0 ∧ ∃ c < n,
        (s.readLine env prompt n line).writes = s.writes ++ [⟨s.jobs, c, jobValue line⟩]) := by
  cases checked : (checkInput line).ret with
  | none =>
    obtain ⟨ended, writes⟩ := killAll_ended (show (n : Int) ≤ 50 by omega) created.running
    rw [readLine_exit created.running checked]
    refine ⟨fun running => ?_, Or.inl writes⟩
    rw [ended] at running
    cases running
  | some value =>
    by_cases job : value = 0
    · subst job
      rw [readLine_job created.running checked]
      rcases runJob_writes created any few prompted line with ⟨ended, writes⟩ | ⟨still, one⟩
      · exact ⟨fun running => absurd running ended, Or.inl writes⟩
      · exact ⟨fun _ => still, Or.inr ⟨rfl, one⟩⟩
    · rw [readLine_refused checked job]
      exact ⟨fun _ => created, Or.inl rfl⟩

end Parent

/-! ### What flows through the pipes -/

namespace JobSystem

variable {env : Environment} {prompt : List Char} {n capacity : Nat} {s t : JobSystem}

/-- How much stands between the parent and a child. -/
def WithinPhase (capacity : Nat) (phase : Phase) (i : Nat) (child : Station Int Int) : Prop :=
  match phase with
  | .select => child.load ≤ capacity + 2
  | .line ready => child.load ≤ capacity + 2 ∧ if ready i then child.output ≠ [] else child.load ≤ capacity + 1
  | .collect ready j =>
    if j ≤ i ∧ ready i then child.load ≤ capacity + 3 ∧ child.output ≠ [] else child.load ≤ capacity + 2

theorem WithinPhase.own {phase : Phase} {i : Nat} {child child' : Station Int Int}
    (within : WithinPhase capacity phase i child) (load : child'.load = child.load)
    (output : child.output ≠ [] → child'.output ≠ []) : WithinPhase capacity phase i child' := by
  unfold WithinPhase at within ⊢
  rw [load]
  cases phase with
  | select => exact within
  | line ready =>
    refine ⟨within.1, ?_⟩
    have before := within.2
    split_ifs at before ⊢
    · exact output before
    · exact before
  | collect ready j =>
    simp only at within ⊢
    split_ifs at within ⊢
    · exact ⟨within.1, output within.2⟩
    · exact within

structure Flowing (env : Environment) (n capacity : Nat) (s : JobSystem) : Prop where
  conserved : ∀ i, (s.children i).Conserved capacity increment
  sent : ∀ i, (s.children i).sent = (s.parent.writes.filter fun w => w.child = i).map PipeWrite.value
  created : s.parent.ending = none → Parent.Created env n s.parent
  within : ∀ i < n, WithinPhase capacity s.phase i (s.children i)

/-- A child moves on its own: what stands between it and the parent stays, and nothing leaves its second pipe. -/
theorem Flowing.own (flowing : Flowing env n capacity s) {i : Nat} {child : Station Int Int}
    (conserved : child.Conserved capacity increment) (sent : child.sent = (s.children i).sent)
    (load : child.load = (s.children i).load) (output : (s.children i).output ≠ [] → child.output ≠ []) :
    Flowing env n capacity (s.put i child) where
  conserved j := by
    by_cases same : j = i
    · subst same
      simpa only [put_self] using conserved
    · simpa only [put_of_ne same] using flowing.conserved j
  sent j := by
    by_cases same : j = i
    · subst same
      simpa only [put_self, put_parent] using sent.trans (flowing.sent j)
    · simpa only [put_of_ne same, put_parent] using flowing.sent j
  created := flowing.created
  within j inside := by
    by_cases same : j = i
    · subst same
      simpa only [put_self, put_phase] using (flowing.within j inside).own load output
    · simpa only [put_of_ne same, put_phase] using flowing.within j inside

theorem Flowing.moved (flowing : Flowing env n capacity s) {phase : Phase}
    (within : ∀ i < n, WithinPhase capacity phase i (s.children i)) : Flowing env n capacity { s with phase := phase } :=
  ⟨flowing.conserved, flowing.sent, flowing.created, within⟩

theorem Flowing.receive (flowing : Flowing env n capacity s) {i : Nat} {child : Station Int Int}
    (done : (s.children i).receive increment = some child) : Flowing env n capacity (s.put i child) := by
  obtain ⟨conserved, load⟩ := (flowing.conserved i).receive done
  obtain ⟨a, b, rest, -, -, -, rfl⟩ := Station.receive_some done
  exact flowing.own conserved rfl load id

theorem Flowing.reply (flowing : Flowing env n capacity s) {i : Nat} {child : Station Int Int}
    (done : (s.children i).reply capacity = some child) : Flowing env n capacity (s.put i child) := by
  obtain ⟨conserved, load⟩ := (flowing.conserved i).reply done
  obtain ⟨b, -, -, rfl⟩ := Station.reply_some done
  exact flowing.own conserved rfl load fun _ => List.append_ne_nil_of_right_ne_nil _ (List.cons_ne_nil _ _)

/-- The parent reads a result of the child it has come to. -/
theorem Flowing.take (flowing : Flowing env n capacity s) {ready : Nat → Bool} {i : Nat} (phase : s.phase = .collect ready i)
    {child : Station Int Int} (found : ready i = true) (done : (s.children i).take = some child) (inside : i < n) :
    Flowing env n capacity { s.put i child with phase := .collect ready (i + 1) } where
  conserved j := by
    by_cases same : j = i
    · subst same
      simpa only [put_self] using ((flowing.conserved j).take done).1
    · simpa only [put_of_ne same] using flowing.conserved j
  sent j := by
    by_cases same : j = i
    · subst same
      obtain ⟨b, rest, -, rfl⟩ := Station.take_some done
      simpa only [put_self, put_parent] using flowing.sent j
    · simpa only [put_of_ne same, put_parent] using flowing.sent j
  created := flowing.created
  within j before := by
    have within := flowing.within j before
    rw [phase] at within
    simp only [WithinPhase] at within ⊢
    by_cases same : j = i
    · subst same
      have load := ((flowing.conserved j).take done).2
      rw [if_pos ⟨le_rfl, found⟩] at within
      rw [if_neg (by omega), put_self]
      omega
    · rw [put_of_ne same]
      by_cases later : i + 1 ≤ j ∧ ready j = true
      · rw [if_pos ⟨by omega, later.2⟩] at within
        rwa [if_pos later]
      · rw [if_neg fun still => later ⟨by omega, still.2⟩] at within
        rwa [if_neg later]

/-- One write of the parent, to a child with room in its pipe. -/
theorem Flowing.write (flowing : Flowing env n capacity s) {ready : Nat → Bool} (phase : s.phase = .line ready)
    {parent : Parent} {w : PipeWrite} (created : parent.ending = none → Parent.Created env n parent)
    (writes : parent.writes = s.parent.writes ++ [w]) {child : Station Int Int}
    (done : (s.children w.child).put capacity w.value = some child) :
    Flowing env n capacity { s.put w.child child with parent := parent, phase := .collect ready 0 } where
  conserved j := by
    by_cases same : j = w.child
    · subst same
      simpa only [put_self] using ((flowing.conserved _).put done).1
    · simpa only [put_of_ne same] using flowing.conserved j
  sent j := by
    simp only [writes, List.filter_append, List.map_append]
    by_cases same : j = w.child
    · subst same
      obtain ⟨-, rfl⟩ := Station.put_some done
      simp [put_self, flowing.sent]
    · simpa [put_of_ne same, Ne.symm same] using flowing.sent j
  created := created
  within j before := by
    have within := flowing.within j before
    rw [phase] at within
    simp only [WithinPhase] at within ⊢
    obtain ⟨few, split⟩ := within
    by_cases same : j = w.child
    · subst same
      have load := ((flowing.conserved _).put done).2
      obtain ⟨-, rfl⟩ := Station.put_some done
      simp only [put_self]
      by_cases found : ready w.child = true
      · rw [if_pos found] at split
        rw [if_pos ⟨Nat.zero_le _, found⟩, load]
        exact ⟨by omega, split⟩
      · rw [if_neg found] at split
        rw [if_neg fun both => found both.2, load]
        omega
    · simp only [put_of_ne same]
      by_cases found : ready j = true
      · rw [if_pos found] at split
        rw [if_pos ⟨Nat.zero_le _, found⟩]
        exact ⟨by omega, split⟩
      · rw [if_neg fun both => found both.2]
        exact few

/-! ### Steps -/

/-- `select` finds the children whose second pipe is not empty. -/
theorem Flowing.select (flowing : Flowing env n capacity s) (phase : s.phase = .select) :
    (∀ i < n, WithinPhase capacity (.line fun i => !(s.children i).output.isEmpty) i (s.children i)) ∧
      ∀ i < n, WithinPhase capacity (.collect (fun i => !(s.children i).output.isEmpty) 0) i (s.children i) := by
  refine ⟨fun i inside => ?_, fun i inside => ?_⟩
  · have within := flowing.within i inside
    have input := (flowing.conserved i).input
    have held : (s.children i).held.toList.length ≤ 1 := by cases (s.children i).held <;> simp
    rw [phase] at within
    simp only [WithinPhase] at within ⊢
    refine ⟨within, ?_⟩
    split_ifs with found
    · simpa using found
    · have empty : (s.children i).output = [] := by simpa using found
      simp only [Station.load, empty, List.length_nil]
      omega
  · have within := flowing.within i inside
    rw [phase] at within
    simp only [WithinPhase] at within ⊢
    split_ifs with found
    · exact ⟨by omega, by simpa using found.2⟩
    · exact within

theorem Flowing.line (any : 0 < n) (few : n ≤ 50) (prompted : prompt = random ∨ prompt = roundRobin)
    (flowing : Flowing env n capacity s) (running : s.parent.ending = none) {ready : Nat → Bool} (phase : s.phase = .line ready)
    {bytes : List Char} (done : step env prompt n capacity s (.line bytes) = some t) :
    Flowing env n capacity t ∧ t.parent = s.parent.readLine env prompt n bytes := by
  obtain ⟨created, written⟩ := Parent.readLine_writes (flowing.created running) any few prompted bytes
  simp only [step, running, phase, Option.isSome_none, Bool.false_eq_true, if_false] at done
  have within : ∀ i < n, (s.children i).load ≤ capacity + 2 ∧
      if ready i then (s.children i).output ≠ [] else (s.children i).load ≤ capacity + 1 := by
    intro i inside
    have within := flowing.within i inside
    rw [phase] at within
    exact within
  rcases written with none | ⟨job, c, inside, one⟩
  · rw [none, List.drop_length] at done
    obtain rfl := Option.some.inj done
    refine ⟨⟨flowing.conserved, fun i => by rw [none]; exact flowing.sent i, created, fun i inside => ?_⟩, rfl⟩
    obtain ⟨low, split⟩ := within i inside
    split_ifs
    · simp only [WithinPhase]
      split_ifs with found
      · rw [if_pos found.2] at split
        exact ⟨by omega, split⟩
      · exact low
    · exact low
  · rw [one, List.drop_left, if_pos job] at done
    obtain ⟨u, sent, rfl⟩ := Option.map_eq_some_iff.mp done
    unfold send at sent
    simp only [List.foldlM_cons, List.foldlM_nil] at sent
    obtain ⟨child, put, rfl⟩ :
        ∃ child, (s.children c).put capacity (Parent.jobValue bytes) = some child ∧ s.put c child = u := by
      simpa [Option.bind_eq_some_iff] using sent
    exact ⟨flowing.write phase created one put, rfl⟩

/-- The line that an event reads. -/
def bytes : JobEvent → Option (List Char)
  | .line bytes => some bytes
  | _ => none

theorem Flowing.step (any : 0 < n) (few : n ≤ 50) (prompted : prompt = random ∨ prompt = roundRobin)
    (flowing : Flowing env n capacity s) {e : JobEvent} (done : step env prompt n capacity s e = some t) :
    Flowing env n capacity t ∧ t.parent = (bytes e).toList.foldl (Parent.readLine env prompt n) s.parent := by
  have running : s.parent.ending = none := by
    cases ending : s.parent.ending with
    | none => rfl
    | some ending' =>
      simp only [JobSystem.step, ending, Option.isSome_some, if_true] at done
      cases done
  cases e with
  | line bytes =>
    cases phase : s.phase with
    | line ready => exact flowing.line any few prompted running phase done
    | select | collect _ _ =>
      simp only [JobSystem.step, running, phase, Option.isSome_none, Bool.false_eq_true, if_false] at done
      cases done
  | select stdin =>
    cases phase : s.phase with
    | select =>
      obtain ⟨lines, collects⟩ := flowing.select phase
      simp only [JobSystem.step, running, phase, Option.isSome_none, Bool.false_eq_true, if_false] at done
      split_ifs at done
      · obtain rfl := Option.some.inj done
        exact ⟨flowing.moved lines, rfl⟩
      · obtain rfl := Option.some.inj done
        exact ⟨flowing.moved collects, rfl⟩
    | line _ | collect _ _ =>
      simp only [JobSystem.step, running, phase, Option.isSome_none, Bool.false_eq_true, if_false] at done
      cases done
  | readFails =>
    cases phase : s.phase with
    | line ready =>
      simp only [JobSystem.step, running, phase, Option.isSome_none, Bool.false_eq_true, if_false] at done
      obtain rfl := Option.some.inj done
      refine ⟨flowing.moved fun i inside => ?_, rfl⟩
      have within := flowing.within i inside
      rw [phase] at within
      exact within.1
    | select | collect _ _ =>
      simp only [JobSystem.step, running, phase, Option.isSome_none, Bool.false_eq_true, if_false] at done
      cases done
  | collect =>
    cases phase : s.phase with
    | collect ready i =>
      simp only [JobSystem.step, running, phase, Option.isSome_none, Bool.false_eq_true, if_false] at done
      split_ifs at done with inside found
      · obtain ⟨child, taken, rfl⟩ := Option.map_eq_some_iff.mp done
        exact ⟨flowing.take phase found taken inside, rfl⟩
      · obtain rfl := Option.some.inj done
        refine ⟨flowing.moved fun j before => ?_, rfl⟩
        have within := flowing.within j before
        rw [phase] at within
        simp only [WithinPhase] at within ⊢
        by_cases same : j = i
        · subst same
          rw [if_neg fun both => found both.2] at within
          rwa [if_neg fun both => found both.2]
        · by_cases later : i + 1 ≤ j ∧ ready j = true
          · rw [if_pos ⟨by omega, later.2⟩] at within
            rwa [if_pos later]
          · rw [if_neg fun still => later ⟨by omega, still.2⟩] at within
            rwa [if_neg later]
      · obtain rfl := Option.some.inj done
        refine ⟨flowing.moved fun j before => ?_, rfl⟩
        have within := flowing.within j before
        rw [phase] at within
        simp only [WithinPhase] at within ⊢
        rwa [if_neg (by omega)] at within
    | select | line _ =>
      simp only [JobSystem.step, running, phase, Option.isSome_none, Bool.false_eq_true, if_false] at done
      cases done
  | receive i =>
    simp only [JobSystem.step, running, Option.isSome_none, Bool.false_eq_true, if_false] at done
    split_ifs at done
    obtain ⟨child, received, rfl⟩ := Option.map_eq_some_iff.mp done
    exact ⟨flowing.receive received, rfl⟩
  | reply i =>
    simp only [JobSystem.step, running, Option.isSome_none, Bool.false_eq_true, if_false] at done
    split_ifs at done
    obtain ⟨child, replied, rfl⟩ := Option.map_eq_some_iff.mp done
    exact ⟨flowing.reply replied, rfl⟩

/-! ### Progress -/

/-- The parent waits in `select` for its first input alone, and every job has come back. -/
def Idle (n : Nat) (s : JobSystem) : Prop := s.phase = .select ∧ ∀ i < n, (s.children i).load = 0

/-- What happens without a new line. -/
def Unprompted : JobEvent → Prop
  | .select stdin => stdin = false
  | .line _ | .readFails => False
  | .collect | .receive _ | .reply _ => True

theorem Flowing.defined (flowing : Flowing env n capacity s) (small : ∀ w ∈ s.parent.writes, w.value < 2 ^ 31 - 1) (i : Nat) :
    ∀ a ∈ (s.children i).input, (increment a).isSome := by
  intro a member
  obtain ⟨done, sent, -⟩ := (flowing.conserved i).made
  have among : a ∈ (s.children i).sent := by
    rw [sent]
    exact List.mem_append_right _ member
  rw [flowing.sent] at among
  obtain ⟨w, written, rfl⟩ := List.mem_map.mp among
  unfold increment
  rw [if_pos (small w (List.mem_of_mem_filter written))]
  rfl

/-- Some child moves, or none of the first `n` can. -/
theorem child_moves (env : Environment) (prompt : List Char) (running : s.parent.ending = none) :
    (∃ e, Unprompted e ∧ (step env prompt n capacity s e).isSome) ∨
      ∀ i < n, (s.children i).receive increment = none ∧ (s.children i).reply capacity = none := by
  by_cases stuck : ∀ i < n, (s.children i).receive increment = none ∧ (s.children i).reply capacity = none
  · exact Or.inr stuck
  · left
    simp only [not_forall] at stuck
    obtain ⟨i, inside, moves⟩ := stuck
    by_cases receives : (s.children i).receive increment = none
    · obtain ⟨child, replied⟩ := Option.ne_none_iff_exists'.mp fun none => moves ⟨receives, none⟩
      refine ⟨.reply i, trivial, ?_⟩
      simp only [step, running, inside, replied, Option.isSome_none, Bool.false_eq_true, if_false, if_true, Option.map_some,
        Option.isSome_some]
    · obtain ⟨child, received⟩ := Option.ne_none_iff_exists'.mp receives
      refine ⟨.receive i, trivial, ?_⟩
      simp only [step, running, inside, received, Option.isSome_none, Bool.false_eq_true, if_false, if_true, Option.map_some,
        Option.isSome_some]

/-- The parent never waits for a child that waits for the parent. -/
theorem Flowing.moves (any : 0 < n) (few : n ≤ 50) (prompted : prompt = random ∨ prompt = roundRobin) (room : 2 ≤ capacity)
    (flowing : Flowing env n capacity s) (running : s.parent.ending = none)
    (small : ∀ w ∈ s.parent.writes, w.value < 2 ^ 31 - 1) :
    Idle n s ∨ ∀ line, ∃ e, (Unprompted e ∨ e = .line line) ∧ (JobSystem.step env prompt n capacity s e).isSome := by
  rcases child_moves env prompt running with moves | stuck
  · obtain ⟨e, own, moves⟩ := moves
    exact Or.inr fun _ => ⟨e, Or.inl own, moves⟩
  cases phase : s.phase with
  | select =>
    by_cases idle : ∀ i < n, (s.children i).load = 0
    · exact Or.inl ⟨phase, idle⟩
    · right
      intro _
      simp only [not_forall] at idle
      obtain ⟨i, inside, loaded⟩ := idle
      have output : (s.children i).output ≠ [] := fun empty => loaded
        (Station.stuck_empty (by omega) (flowing.defined small i) (stuck i inside).1 (stuck i inside).2 empty)
      have ready : anyReady n (fun i => !(s.children i).output.isEmpty) = true :=
        List.any_eq_true.mpr ⟨i, List.mem_range.mpr inside, by simpa using output⟩
      refine ⟨.select false, Or.inl rfl, ?_⟩
      simp only [JobSystem.step, running, phase, ready, Option.isSome_none, Bool.false_eq_true, if_false, if_true,
        Option.isSome_some]
  | line ready =>
    right
    intro line
    refine ⟨.line line, Or.inr rfl, ?_⟩
    obtain ⟨-, none | ⟨job, c, inside, one⟩⟩ := Parent.readLine_writes (flowing.created running) any few prompted line
    · simp only [JobSystem.step, running, phase, none, List.drop_length, Option.isSome_none, Bool.false_eq_true, if_false]
      rfl
    · -- a full pipe of a stuck child would mean more jobs under way than there can be
      have put : (s.children c).input.length < capacity := by
        by_contra full
        have within := flowing.within c inside
        rw [phase] at within
        have waiting : (s.children c).input ≠ [] := by
          intro empty
          rw [empty, List.length_nil] at full
          omega
        obtain ⟨held, output⟩ :=
          Station.stuck_full (flowing.defined small c) waiting (stuck c inside).1 (stuck c inside).2
        obtain ⟨b, held⟩ := Option.isSome_iff_exists.mp held
        have load := within.1
        simp only [Station.load, held, Option.toList_some, List.length_singleton] at load
        omega
      simp only [JobSystem.step, running, phase, one, List.drop_left, send, List.foldlM_cons, List.foldlM_nil, Station.put,
        if_pos put, Option.isSome_none, Bool.false_eq_true, if_false]
      rfl
  | collect ready i =>
    right
    intro _
    refine ⟨.collect, Or.inl trivial, ?_⟩
    simp only [JobSystem.step, running, phase, Option.isSome_none, Bool.false_eq_true, if_false]
    split_ifs with inside found
    · have within := flowing.within i inside
      rw [phase] at within
      simp only [WithinPhase] at within
      rw [if_pos ⟨le_rfl, found⟩] at within
      obtain ⟨b, rest, output⟩ := List.exists_cons_of_ne_nil within.2
      simp only [Station.take, output, Option.map_some, Option.isSome_some]
    · rfl
    · rfl

/-! ### Runs -/

theorem flowing_start (created : (Parent.boot.create env n).ending = none) (few : n ≤ 50) :
    Flowing env n capacity (start env n) where
  conserved _ := Station.conserved_empty
  sent i := by
    simp only [start, (Parent.create_fresh env n).1]
    rfl
  created _ := by
    have all := Parent.create_created (show (n : Int) ≤ 50 by omega) created
    rwa [Int.toNat_natCast] at all
  within _ _ := Nat.zero_le _

theorem Flowing.run (any : 0 < n) (few : n ≤ 50) (prompted : prompt = random ∨ prompt = roundRobin)
    (flowing : Flowing env n capacity s) {events : List JobEvent}
    (ran : events.foldlM (JobSystem.step env prompt n capacity) s = some t) :
    Flowing env n capacity t ∧
      t.parent = (events.filterMap bytes).foldl (Parent.readLine env prompt n) s.parent := by
  induction events generalizing s with
  | nil =>
    obtain rfl := Option.some.inj ran
    exact ⟨flowing, rfl⟩
  | cons e events ih =>
    rw [List.foldlM_cons] at ran
    obtain ⟨next, one, rest⟩ := Option.bind_eq_some_iff.mp ran
    obtain ⟨flowing, parent⟩ := flowing.step any few prompted one
    obtain ⟨last, lines⟩ := ih flowing rest
    refine ⟨last, lines.trans ?_⟩
    rw [parent]
    cases read : bytes e with
    | none => rw [List.filterMap_cons_none read]; rfl
    | some line => rw [List.filterMap_cons_some read]; rfl

/-- Every value that is written is that of a line. -/
theorem values_read (any : 0 < n) (few : n ≤ 50) (prompted : prompt = random ∨ prompt = roundRobin) {p : Parent}
    (created : p.ending = none → Parent.Created env n p) (lines : List (List Char)) {w : PipeWrite}
    (written : w ∈ (lines.foldl (Parent.readLine env prompt n) p).writes) :
    w ∈ p.writes ∨ ∃ line ∈ lines, (checkInput line).ret = some 0 ∧ w.value = Parent.jobValue line := by
  induction lines generalizing p with
  | nil => exact Or.inl written
  | cons line lines ih =>
    cases running : p.ending with
    | some ending =>
      rw [Parent.run_ended running] at written
      exact Or.inl written
    | none =>
      obtain ⟨still, wrote⟩ := Parent.readLine_writes (created running) any few prompted line
      rcases ih still written with before | ⟨line', member, job, value⟩
      · rcases wrote with none | ⟨job, c, -, one⟩
        · exact Or.inl (none ▸ before)
        · rw [one] at before
          rcases List.mem_append.mp before with old | new
          · exact Or.inl old
          · rw [List.mem_singleton.mp new]
            exact Or.inr ⟨line, List.mem_cons_self, job, rfl⟩
      · exact Or.inr ⟨line', List.mem_cons_of_mem _ member, job, value⟩

theorem map_increment {as bs : List Int} (made : as.map increment = bs.map some) : bs = as.map (· + 1) := by
  induction as generalizing bs with
  | nil => exact (List.map_eq_nil_iff.mp made.symm)
  | cons a as ih =>
    obtain ⟨b, rest, rfl, first, others⟩ := List.map_eq_cons_iff.mp made.symm
    unfold increment at first
    split_ifs at first
    rw [List.map_cons, ← Option.some.inj first, ih others.symm]

/-- However the parent and its children take turns, the results that the parent has read of a child are those of the
first jobs it has given it, in their order, and at most three more are under way than a pipe holds. With
`--round-robin` the jobs go to the children in turn. Unless the parent waits for its first input alone and all
jobs have come back, it or a child can go on, whatever line comes next. -/
theorem jobs_flow (env : Environment) {prompt : List Char} {n capacity : Nat} {events : List JobEvent} {s : JobSystem}
    (any : 0 < n) (few : n ≤ 50) (prompted : prompt = random ∨ prompt = roundRobin) (room : 2 ≤ capacity)
    (created : (Parent.boot.create env n).ending = none) (ran : run env prompt n capacity events = some s)
    (small : ∀ line ∈ events.filterMap bytes, (checkInput line).ret = some 0 → Parent.jobValue line < 2 ^ 31 - 1) :
    (∀ i < n, ∃ underway : List Int, underway.length ≤ capacity + 3 ∧ (s.children i).taken ++ underway =
      (s.parent.writes.filter fun w => w.child = i).map fun w => w.value + 1) ∧
    (prompt = roundRobin → (acceptedLines (events.filterMap bytes)).length < 2 ^ 31 →
      s.parent.writes = (acceptedLines (events.filterMap bytes)).zipIdx.map (Parent.turn n)) ∧
    (s.parent.ending = none →
      Idle n s ∨ ∀ line, ∃ e, (Unprompted e ∨ e = .line line) ∧ (step env prompt n capacity s e).isSome) := by
  have start : Flowing env n capacity (start env n) := flowing_start created few
  obtain ⟨flowing, parent⟩ := start.run any few prompted ran
  refine ⟨fun i inside => ?_, fun turns counted => ?_,
    fun running => flowing.moves any few prompted room running fun w written => ?_⟩
  · obtain ⟨done, sent, made⟩ := (flowing.conserved i).made
    refine ⟨(s.children i).output ++ (s.children i).held.toList ++ (s.children i).input.map (· + 1), ?_, ?_⟩
    · have within := flowing.within i inside
      have load : (s.children i).load ≤ capacity + 3 := by
        unfold WithinPhase at within
        split at within
        · omega
        · omega
        · split_ifs at within <;> omega
      unfold Station.load at load
      simp only [List.length_append, List.length_map]
      omega
    · have all : (s.children i).sent.map (· + 1) = (s.parent.writes.filter fun w => w.child = i).map fun w => w.value + 1 := by
        rw [flowing.sent i, List.map_map]
        rfl
      rw [← all, sent, List.map_append, ← map_increment made]
      simp
  · subst turns
    rw [parent]
    exact written_in_turns any few created counted
  · rw [parent] at written
    rcases values_read any few prompted start.created _ written with none | ⟨line, member, job, value⟩
    · rw [show (JobSystem.start env n).parent = Parent.boot.create env n from rfl, (Parent.create_fresh env n).1] at none
      cases none
    · rw [value]
      exact small line member job

/-- A job for each of two children. The first comes back. -/
def twoJobs : List JobEvent :=
  [.select true, .line "7\n".toList, .collect, .receive 0, .collect, .collect, .select true, .line "8\n".toList, .collect,
    .collect, .reply 0, .collect, .select false, .collect]

theorem jobs_flow_two :
    ∃ s, run Parent.smooth roundRobin 2 2 twoJobs = some s ∧ s.parent.writes = [⟨0, 0, 7⟩, ⟨1, 1, 8⟩] ∧
      ∃ underway : List Int, (s.children 1).taken ++ underway = [9] := by
  obtain ⟨s, ran⟩ := Option.isSome_iff_exists.mp (show (run Parent.smooth roundRobin 2 2 twoJobs).isSome by decide)
  obtain ⟨flows, turns, -⟩ := jobs_flow Parent.smooth (by decide) (by decide) (Or.inr rfl) le_rfl
    (Parent.create_smooth (by decide)) ran (by decide)
  have writes := turns rfl (by decide)
  obtain ⟨underway, -, all⟩ := flows 1 (by decide)
  refine ⟨s, ran, writes.trans (by decide), underway, all.trans ?_⟩
  rw [writes]
  decide

end JobSystem

end OsLab.Projects
