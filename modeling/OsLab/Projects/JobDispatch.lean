import OsLab.Foundation.Runs
import OsLab.Projects.JobParent

/-!
# Dispatch of jobs

For which arguments and lines the parent stays inside `pid_array`, computes no remainder by
zero, and gives the jobs to its children in their turns.
-/

namespace OsLab.Projects
open CText Runs
namespace Parent

variable {env : Environment} {prompt : List Char} {digits : Int} {s : Parent}

theorem andThen_running (running : s.ending = none) (next : Parent → Parent) : s.andThen next = next s := by
  rw [andThen, running]
  rfl

theorem andThen_ended {ending : Ending} (ended : s.ending = some ending) (next : Parent → Parent) :
    s.andThen next = s := by
  rw [andThen, ended]
  rfl

theorem access_inside {i : Int} (low : 0 ≤ i) (small : i < 50) :
    s.access i = { s with indexes := s.indexes ++ [i] } :=
  if_pos ⟨low, small⟩

theorem access_andThen {i : Int} (running : s.ending = none) (low : 0 ≤ i) (small : i < 50) (next : Parent → Parent) :
    (s.access i).andThen next = next { s with indexes := s.indexes ++ [i] } := by
  rw [access_inside low small]
  exact andThen_running (s := { s with indexes := s.indexes ++ [i] }) running next

/-! ### Safety -/

structure Sound (digits : Int) (s : Parent) : Prop where
  indexes : ∀ i ∈ s.indexes, 0 ≤ i ∧ i < 50 ∧ i < digits
  nonzero : s.ending ≠ some .moduloByZero

theorem boot_sound (digits : Int) : Sound digits boot := ⟨fun _ member => absurd member List.not_mem_nil, nofun⟩

theorem Sound.congr {t : Parent} (sound : Sound digits s) (indexes : t.indexes = s.indexes)
    (ending : t.ending = s.ending) : Sound digits t :=
  ⟨indexes ▸ sound.indexes, ending ▸ sound.nonzero⟩

theorem Sound.stop (sound : Sound digits s) {ending : Ending} (other : ending ≠ .moduloByZero) :
    Sound digits (s.stop ending) :=
  ⟨sound.indexes, fun same => other (Option.some.inj same)⟩

theorem Sound.andThen {next : Parent → Parent} (sound : Sound digits s) (keeps : Sound digits (next s)) :
    Sound digits (s.andThen next) := by
  unfold Parent.andThen
  split_ifs
  · exact sound
  · exact keeps

theorem Sound.access (sound : Sound digits s) {i : Int} (low : 0 ≤ i) (small : i < 50) (few : i < digits) :
    Sound digits (s.access i) := by
  rw [access_inside low small]
  refine ⟨fun j member => ?_, sound.nonzero⟩
  rcases List.mem_append.mp member with old | new
  · exact sound.indexes j old
  · rw [List.mem_singleton.mp new]
    exact ⟨low, small, few⟩

/-- What the body keeps for every index of a loop, the loop keeps. -/
theorem loop_keeps {I : Parent → Prop} {body : Nat → Parent → Parent} {n i m : Nat} (within : i + n ≤ m)
    (keeps : ∀ j s, j < m → I s → I (body j s)) (start : I s) : I (loop body n i s) := by
  induction n generalizing i s with
  | zero => exact start
  | succ n ih =>
    have next : I (body i s) := keeps i s (by omega) start
    unfold loop andThen
    split_ifs
    · exact next
    · exact ih (by omega) next

/-- A loop over the children of at most fifty. -/
theorem Sound.loop {body : Nat → Parent → Parent} (few : digits ≤ 50)
    (keeps : ∀ (i : Nat) s, (i : Int) < 50 → (i : Int) < digits → Sound digits s → Sound digits (body i s))
    (sound : Sound digits s) : Sound digits (loop body digits.toNat 0 s) := by
  refine loop_keeps (Nat.le_of_eq (Nat.zero_add _)) (fun i s inside => keeps i s ?_ ?_) sound
  · omega
  · omega

theorem Sound.create (few : digits ≤ 50) (sound : Sound digits s) : Sound digits (s.create env digits) := by
  unfold Parent.create
  split_ifs
  · refine sound.loop few fun i s small inside sound => ?_
    refine (sound.access (Int.natCast_nonneg i) small inside).andThen ?_
    have set : Sound digits
        { s.access i with pidArray := Function.update (s.access i).pidArray i (env.fork i) } :=
      (sound.access (Int.natCast_nonneg i) small inside).congr rfl rfl
    split_ifs
    · exact set.stop (by decide)
    · exact set
  · exact sound.stop (by decide)

theorem Sound.killAll (few : digits ≤ 50) (sound : Sound digits s) : Sound digits (s.killAll digits) := by
  have looped : Sound digits (Parent.loop killChild digits.toNat 0 s) :=
    sound.loop few fun i s small inside sound => sound.access (Int.natCast_nonneg i) small inside
  exact looped.andThen (looped.stop (by decide))

theorem Sound.choose (some : 1 ≤ digits) (few : digits ≤ 50) (sound : Sound digits s) (v : Nat) :
    Sound digits (s.choose digits v) := by
  have low : 0 ≤ (v : Int).tmod digits := Int.tmod_nonneg digits (Int.natCast_nonneg v)
  have high : (v : Int).tmod digits < digits := Int.tmod_lt_of_pos _ (by omega)
  have read := sound.access low (by omega) high
  unfold Parent.choose
  rw [if_neg (by omega)]
  exact read.andThen (read.congr rfl rfl)

theorem Sound.sendAll (few : digits ≤ 50) (sound : Sound digits s) (value : Int) :
    Sound digits (s.sendAll digits value) := by
  have looped : Sound digits (Parent.loop (sendChild value) digits.toNat 0 s) := by
    refine sound.loop few fun i s small inside sound => ?_
    have read := sound.access (Int.natCast_nonneg i) small inside
    refine read.andThen ?_
    split_ifs
    · exact read.congr rfl rfl
    · exact read
  exact looped.andThen (looped.congr rfl rfl)

theorem Sound.runJob (some : 1 ≤ digits) (few : digits ≤ 50) (sound : Sound digits s) (line : List Char) :
    Sound digits (s.runJob env prompt digits line) := by
  have first : Sound digits (if prompt = random then s.chooseRandom env digits else s) := by
    split_ifs
    · have drawn : Sound digits { s with rands := s.rands + 1 } := sound.congr rfl rfl
      exact drawn.choose some few _
    · exact sound
  have second : ∀ t, Sound digits t → Sound digits (if prompt = roundRobin then t.chooseNext digits else t) := by
    intro t sound
    split_ifs
    · have chosen := sound.choose some few t.iterator
      refine chosen.andThen ?_
      unfold countUp
      split_ifs
      · exact chosen.congr rfl rfl
      · exact chosen.stop (by decide)
    · exact sound
  have both := first.andThen (second _ first)
  exact both.andThen (both.sendAll few _)

theorem Sound.readLine (few : digits ≤ 50) (sound : Sound digits s) {line : List Char}
    (job : (checkInput line).ret = some 0 → 1 ≤ digits) : Sound digits (s.readLine env prompt digits line) := by
  refine sound.andThen ?_
  split
  · exact sound.killAll few
  · exact sound.runJob (job ‹_›) few line
  · exact sound

/-! ### Children -/

/-- The parent runs, and all its children do. -/
structure Created (env : Environment) (n : Nat) (s : Parent) : Prop where
  running : s.ending = none
  pids : ∀ i < n, s.pidArray i = env.fork i ∧ 0 ≤ env.fork i

theorem fork_inj {i j : Nat} (first : 0 ≤ env.fork i) (second : 0 ≤ env.fork j) (same : env.fork i = env.fork j) : i = j := by
  rcases Nat.lt_trichotomy i j with less | equal | more
  · exact absurd same ((env.children j second).2 i less)
  · exact equal
  · exact absurd same.symm ((env.children i first).2 j more)

theorem createChild_cases {n i : Nat} (created : Created env i s) (small : i < 50) (next : i < n) :
    Created env (i + 1) (createChild env i s) ∨ (createChild env i s).ending = some .failure := by
  unfold createChild
  rw [access_andThen created.running (Int.natCast_nonneg i) (by omega)]
  simp only
  split_ifs with failed
  · exact Or.inr rfl
  · refine Or.inl ⟨created.running, fun j before => ?_⟩
    show Function.update s.pidArray i (env.fork i) j = env.fork j ∧ 0 ≤ env.fork j
    rcases Nat.lt_succ_iff_lt_or_eq.mp before with old | rfl
    · rw [Function.update_of_ne (Nat.ne_of_lt old)]
      exact created.pids j old
    · exact ⟨Function.update_self .., Int.not_lt.mp failed⟩

theorem createLoop_cases {n i : Nat} (created : Created env i s) (few : i + n ≤ 50) :
    Created env (i + n) (loop (createChild env) n i s) ∨
      (loop (createChild env) n i s).ending = some .failure := by
  induction n generalizing i s with
  | zero => exact Or.inl created
  | succ n ih =>
    unfold loop
    rcases createChild_cases created (by omega) (Nat.lt_succ_self i) with next | failed
    · rw [andThen_running next.running, ← Nat.succ_add_eq_add_succ]
      exact ih next (by omega)
    · rw [andThen_ended failed]
      exact Or.inr failed

theorem create_created (few : digits ≤ 50) (running : (boot.create env digits).ending = none) :
    Created env digits.toNat (boot.create env digits) := by
  have start : Created env 0 boot := ⟨rfl, fun i before => absurd before (Nat.not_lt_zero i)⟩
  unfold create at running ⊢
  split_ifs at running ⊢
  · rcases createLoop_cases start (by omega : 0 + digits.toNat ≤ 50) with created | failed
    · rwa [Nat.zero_add] at created
    · rw [failed] at running
      cases running
  · cases running

/-! ### Turns -/

/-- What the parent writes while it comes by the children from `i` on. -/
def sent (job c : Nat) (value : Int) (i n : Nat) : List PipeWrite :=
  if i ≤ c ∧ c < i + n then [⟨job, c, value⟩] else []

theorem sent_succ (job c : Nat) (value : Int) (i n : Nat) :
    sent job c value i 1 ++ sent job c value (i + 1) n = sent job c value i (n + 1) := by
  unfold sent
  rcases Nat.lt_trichotomy i c with before | rfl | behind
  · rw [if_neg (by omega), List.nil_append]
    exact if_congr (by omega) rfl rfl
  · rw [if_pos (by omega), if_neg (by omega), if_pos (by omega), List.append_nil]
  · rw [if_neg (by omega), if_neg (by omega), if_neg (by omega), List.append_nil]

theorem sendChild_eq {m c i : Nat} {value : Int} (created : Created env m s) (chosen : c < m)
    (sendTo : s.sendTo = env.fork c) (few : m ≤ 50) (inside : i < m) :
    sendChild value i s =
      { s with indexes := s.indexes ++ [(i : Int)], writes := s.writes ++ sent s.jobs c value i 1 } := by
  obtain ⟨pid, alive⟩ := created.pids i inside
  unfold sendChild sent
  rw [access_andThen created.running (Int.natCast_nonneg i) (by omega)]
  simp only [pid, sendTo]
  by_cases here : i = c
  · subst here
    rw [if_pos rfl, if_pos (by omega)]
  · rw [if_neg fun same => here (fork_inj alive (created.pids c chosen).2 same.symm), if_neg (by omega), List.append_nil]

theorem sendLoop_eq {m c n i : Nat} {value : Int} (created : Created env m s) (chosen : c < m)
    (sendTo : s.sendTo = env.fork c) (few : m ≤ 50) (within : i + n ≤ m) :
    ∃ indexes, loop (sendChild value) n i s =
      { s with indexes := indexes, writes := s.writes ++ sent s.jobs c value i n } := by
  induction n generalizing i s with
  | zero =>
    refine ⟨s.indexes, ?_⟩
    rw [sent, if_neg (by omega), List.append_nil]
    rfl
  | succ n ih =>
    have inside : i < m := by omega
    rw [loop, sendChild_eq created chosen sendTo few inside]
    have next : Created env m
        { s with indexes := s.indexes ++ [(i : Int)], writes := s.writes ++ sent s.jobs c value i 1 } :=
      ⟨created.running, created.pids⟩
    have behind : i + 1 + n ≤ m := by omega
    obtain ⟨indexes, rest⟩ := ih next sendTo behind
    rw [andThen_running next.running, rest]
    refine ⟨indexes, ?_⟩
    rw [← sent_succ s.jobs c value i n, ← List.append_assoc]

/-- The child whose turn it is. -/
theorem choose_eq {n : Nat} (created : Created env n s) (any : 0 < n) (few : n ≤ 50) (v : Nat) :
    s.choose n v =
      { s with indexes := s.indexes ++ [((v % n : Nat) : Int)], sendTo := env.fork (v % n) } := by
  have inside := Nat.mod_lt v any
  have index : (v : Int).tmod n = ((v % n : Nat) : Int) := (Int.ofNat_tmod v n).symm
  unfold choose
  rw [if_neg (by omega), index, access_andThen created.running (Int.natCast_nonneg _) (by omega)]
  simp only [Int.toNat_natCast, (created.pids _ inside).1]

theorem sendAll_eq {n c : Nat} (value : Int) (created : Created env n s) (few : n ≤ 50) (chosen : c < n)
    (sendTo : s.sendTo = env.fork c) :
    ∃ indexes, s.sendAll n value =
      { s with indexes := indexes, jobs := s.jobs + 1, writes := s.writes ++ [⟨s.jobs, c, value⟩] } := by
  obtain ⟨indexes, sends⟩ := sendLoop_eq created chosen sendTo few (Nat.le_of_eq (Nat.zero_add n))
  unfold sendAll
  rw [Int.toNat_natCast, sends, andThen_running (by exact created.running), sent, if_pos (by omega)]
  exact ⟨indexes, rfl⟩

/-- A job in its turn. -/
theorem runJob_turn {n : Nat} (created : Created env n s) (any : 0 < n) (few : n ≤ 50) (line : List Char)
    (room : s.iterator + 1 < 2 ^ 31) {t : Parent} (ran : s.runJob env roundRobin n line = t) :
    Created env n t ∧ t.iterator = s.iterator + 1 ∧ t.jobs = s.jobs + 1 ∧
      t.writes = s.writes ++ [⟨s.jobs, s.iterator % n, jobValue line⟩] := by
  have chosen : s.chooseNext n =
      { s with
        indexes := s.indexes ++ [((s.iterator % n : Nat) : Int)]
        sendTo := env.fork (s.iterator % n)
        iterator := s.iterator + 1 } := by
    unfold chooseNext
    rw [choose_eq created any few, andThen_running (by exact created.running), countUp, if_pos (by exact room)]
  unfold runJob at ran
  rw [if_neg (by decide), andThen_running created.running, if_pos rfl, chosen,
    andThen_running (by exact created.running)] at ran
  have next : Created env n
      { s with
        indexes := s.indexes ++ [((s.iterator % n : Nat) : Int)]
        sendTo := env.fork (s.iterator % n)
        iterator := s.iterator + 1 } := ⟨created.running, created.pids⟩
  obtain ⟨indexes, sends⟩ := sendAll_eq (jobValue line) next few (Nat.mod_lt s.iterator any) rfl
  rw [sends] at ran
  subst ran
  exact ⟨⟨created.running, created.pids⟩, rfl, rfl, rfl⟩

/-- The counter is full. -/
theorem runJob_overflow {n : Nat} (created : Created env n s) (any : 0 < n) (few : n ≤ 50) (line : List Char)
    (full : ¬ s.iterator + 1 < 2 ^ 31) :
    (s.runJob env roundRobin n line).ending = some .overflow ∧
      (s.runJob env roundRobin n line).writes = s.writes := by
  have stopped : (s.chooseNext n).ending = some .overflow ∧ (s.chooseNext n).writes = s.writes := by
    unfold chooseNext
    rw [choose_eq created any few, andThen_running (by exact created.running), countUp, if_neg (by exact full)]
    exact ⟨rfl, rfl⟩
  unfold runJob
  rw [if_neg (by decide), andThen_running created.running, if_pos rfl, andThen_ended stopped.1]
  exact stopped

/-! ### Runs -/

theorem run_ended {ending : Ending} (ended : s.ending = some ending) (lines : List (List Char)) :
    lines.foldl (readLine env prompt digits) s = s := by
  induction lines with
  | nil => rfl
  | cons line lines ih =>
    rw [List.foldl_cons, readLine, andThen_ended ended]
    exact ih

/-- The job of number `k` goes to child `k mod n`. -/
def turn (n : Nat) (job : List Char × Nat) : PipeWrite := ⟨job.2, job.2 % n, jobValue job.1⟩

theorem readLine_exit (running : s.ending = none) {line : List Char} (exit : (checkInput line).ret = none) :
    s.readLine env prompt digits line = s.killAll digits := by
  rw [readLine, andThen_running running, exit]

theorem readLine_job (running : s.ending = none) {line : List Char} (job : (checkInput line).ret = some 0) :
    s.readLine env prompt digits line = s.runJob env prompt digits line := by
  rw [readLine, andThen_running running, job]
  rfl

theorem readLine_refused {line : List Char} {value : Nat} (refused : (checkInput line).ret = some value)
    (other : value ≠ 0) : s.readLine env prompt digits line = s := by
  rw [readLine, refused]
  unfold andThen
  split_ifs
  · rfl
  · split <;> simp_all

theorem killLoop_running {n i : Nat} (few : i + n ≤ 50) (running : s.ending = none) :
    (loop killChild n i s).ending = none ∧ (loop killChild n i s).writes = s.writes := by
  induction n generalizing i s with
  | zero => exact ⟨running, rfl⟩
  | succ n ih =>
    unfold loop killChild
    rw [access_andThen running (Int.natCast_nonneg i) (by omega)]
    exact ih (by omega) running

theorem killAll_ended (few : digits ≤ 50) (running : s.ending = none) :
    (s.killAll digits).ending = some .exit ∧ (s.killAll digits).writes = s.writes := by
  obtain ⟨still, writes⟩ := killLoop_running (s := s) (show 0 + digits.toNat ≤ 50 by omega) running
  unfold killAll
  rw [andThen_running still]
  exact ⟨rfl, writes⟩

/-- Every accepted job is written once, in its turn. -/
theorem run_turns {n : Nat} (any : 0 < n) (few : n ≤ 50) (lines : List (List Char)) (created : Created env n s)
    (count : s.jobs = s.iterator) (room : s.iterator + (acceptedLines lines).length < 2 ^ 31) :
    (lines.foldl (readLine env roundRobin n) s).writes =
      s.writes ++ ((acceptedLines lines).zipIdx s.iterator).map (turn n) := by
  induction lines generalizing s with
  | nil => exact (List.append_nil _).symm
  | cons line lines ih =>
    rw [List.foldl_cons]
    cases checked : (checkInput line).ret with
    | none =>
      obtain ⟨ended, writes⟩ := killAll_ended (show (n : Int) ≤ 50 by omega) created.running
      rw [readLine_exit created.running checked, run_ended ended, writes, accepted_exit lines checked]
      exact (List.append_nil _).symm
    | some value =>
      by_cases job : value = 0
      · subst job
        rw [accepted_job lines checked] at room ⊢
        rw [List.length_cons] at room
        obtain ⟨still, iterator, jobs, writes⟩ := runJob_turn created any few line (by omega) rfl
        rw [readLine_job created.running checked, ih still (by omega) (by omega), writes, iterator, List.append_assoc,
          List.zipIdx_cons, List.map_cons, turn, ← count]
        rfl
      · rw [readLine_refused checked job]
        rw [accepted_refused lines checked job] at room ⊢
        exact ih created count room

/-- Lines without a job write nothing. -/
theorem run_idle (few : digits ≤ 50) {lines : List (List Char)} (idle : acceptedLines lines = []) :
    (lines.foldl (readLine env prompt digits) s).writes = s.writes := by
  induction lines with
  | nil => rfl
  | cons line lines ih =>
    rw [List.foldl_cons]
    cases running : s.ending with
    | some ending => rw [readLine, andThen_ended running, run_ended running]
    | none =>
      cases checked : (checkInput line).ret with
      | none =>
        obtain ⟨ended, writes⟩ := killAll_ended few running
        rw [readLine_exit running checked, run_ended ended, writes]
      | some value =>
        by_cases job : value = 0
        · subst job
          rw [accepted_job lines checked] at idle
          cases idle
        · rw [readLine_refused checked job]
          exact ih (accepted_refused lines checked job ▸ idle)

theorem Sound.run (few : digits ≤ 50) {lines : List (List Char)} (some : acceptedLines lines ≠ [] → 1 ≤ digits)
    (sound : Sound digits s) : Sound digits (lines.foldl (Parent.readLine env prompt digits) s) := by
  by_cases any : 1 ≤ digits
  · exact foldl_invariant (I := Sound digits) (fun s line sound => sound.readLine few fun _ => any) sound lines
  · have idle : acceptedLines lines = [] := by
      by_contra job
      exact any (some job)
    induction lines generalizing s with
    | nil => exact sound
    | cons line lines ih =>
      rw [List.foldl_cons]
      cases running : s.ending with
      | some ending => rwa [Parent.readLine, andThen_ended running, run_ended running]
      | none =>
        cases checked : (checkInput line).ret with
        | none =>
          rw [readLine_exit running checked, run_ended (killAll_ended few running).1]
          exact sound.killAll few
        | some value =>
          by_cases job : value = 0
          · subst job
            rw [accepted_job lines checked] at idle
            cases idle
          · rw [readLine_refused checked job]
            rw [accepted_refused lines checked job] at some idle
            exact ih some sound idle

/-! ### Runs that go wrong -/

/-- Every pipe and every child is made, and the random number is always zero. -/
def smooth : Environment where
  pipe _ := true
  fork i := i + 1
  rand _ := 0
  children i _ := ⟨by omega, fun j before same => by omega⟩

theorem createChild_smooth {i : Nat} (inside : i < 50) (running : s.ending = none) :
    (createChild smooth i s).ending = none := by
  have born : ¬ smooth.fork i < 0 := fun negative => by
    have negative : (i : Int) + 1 < 0 := negative
    omega
  unfold createChild
  rw [access_andThen running (Int.natCast_nonneg i) (by omega), if_neg born]
  exact running

theorem create_smooth (few : digits ≤ 50) : (boot.create smooth digits).ending = none := by
  have pipes : (List.range (2 * digits.toNat)).all smooth.pipe = true := List.all_eq_true.mpr fun _ _ => rfl
  unfold create
  rw [if_pos pipes]
  exact loop_keeps (I := fun t => t.ending = none) (show 0 + digits.toNat ≤ 50 by omega)
    (fun i t inside running => createChild_smooth inside running) rfl

theorem createLoop_past {n i : Nat} (before : i ≤ 50) (past : 50 < i + n) (running : s.ending = none) :
    (loop (createChild smooth) n i s).ending = some .outOfBounds ∧ 50 ∈ (loop (createChild smooth) n i s).indexes := by
  induction n generalizing i s with
  | zero => omega
  | succ n ih =>
    unfold loop
    rcases Nat.lt_or_eq_of_le before with inside | rfl
    · have next := createChild_smooth inside running
      rw [andThen_running next]
      exact ih inside (by omega) next
    · have stops : createChild smooth 50 s = { s with indexes := s.indexes ++ [50], ending := some .outOfBounds } := by
        unfold createChild
        rw [show s.access (50 : Nat) = { s with indexes := s.indexes ++ [50], ending := some .outOfBounds } from
          if_neg (by decide)]
        rfl
      rw [stops]
      exact ⟨rfl, List.mem_append_right _ List.mem_cons_self⟩

theorem create_past (many : 50 < digits) (lines : List (List Char)) :
    ¬ Sound digits (lines.foldl (readLine smooth prompt digits) (boot.create smooth digits)) := by
  intro sound
  have pipes : (List.range (2 * digits.toNat)).all smooth.pipe = true := List.all_eq_true.mpr fun _ _ => rfl
  obtain ⟨ended, past⟩ := createLoop_past (show 0 ≤ 50 by decide) (show 50 < 0 + digits.toNat by omega) (s := boot) rfl
  unfold create at sound
  rw [if_pos pipes, run_ended ended] at sound
  exact absurd (sound.indexes 50 past).2.1 (by decide)

/-- What is recorded stays recorded. -/
def Grows (next : Parent → Parent) : Prop := ∀ s, s.indexes ⊆ (next s).indexes

theorem subset_andThen {next : Parent → Parent} (goes : Grows next) (s : Parent) : s.indexes ⊆ (s.andThen next).indexes := by
  unfold andThen
  split_ifs
  · exact List.Subset.refl _
  · exact goes s

theorem grows_andThen {first next : Parent → Parent} (begins : Grows first) (goes : Grows next) :
    Grows fun s => (first s).andThen next :=
  fun s => List.Subset.trans (begins s) (subset_andThen goes (first s))

theorem grows_access (i : Int) : Grows (access i) := by
  intro s
  unfold access
  split_ifs
  · exact List.subset_append_left _ _
  · exact List.subset_append_left _ _

theorem grows_loop {body : Nat → Parent → Parent} (grows : ∀ i, Grows (body i)) (n i : Nat) : Grows (loop body n i) := by
  intro s
  have start : s.indexes ⊆ s.indexes := List.Subset.refl _
  exact @loop_keeps s (fun t => s.indexes ⊆ t.indexes) body n i _ (Nat.le_refl _)
    (fun j t _ before => List.Subset.trans before (grows j t)) start

theorem grows_choose (digits : Int) (v : Nat) : Grows (choose digits v) := by
  intro s
  unfold choose
  split_ifs
  · exact List.Subset.refl _
  · have reads : Grows fun t => { t with sendTo := t.pidArray ((v : Int).tmod digits).toNat } :=
      fun t => List.Subset.refl t.indexes
    exact grows_andThen (grows_access _) reads s

theorem grows_countUp : Grows countUp := by
  intro s
  unfold countUp
  split_ifs
  · exact List.Subset.refl _
  · exact List.Subset.refl _

theorem grows_chooseNext (digits : Int) : Grows (chooseNext digits) :=
  fun s => grows_andThen (grows_choose digits s.iterator) grows_countUp s

theorem grows_sendAll (digits value : Int) : Grows (sendAll digits value) := by
  refine grows_andThen (grows_loop (fun i => ?_) _ _) fun s => List.Subset.refl _
  refine grows_andThen (grows_access _) fun s => ?_
  split_ifs
  · exact List.Subset.refl _
  · exact List.Subset.refl _

theorem grows_turn : Grows fun s => if prompt = roundRobin then s.chooseNext digits else s := by
  intro s
  simp only
  split_ifs
  · exact grows_chooseNext digits s
  · exact List.Subset.refl _

theorem grows_runJob (line : List Char) : Grows (runJob env prompt digits line) := by
  refine grows_andThen (grows_andThen (fun s => ?_) grows_turn) (grows_sendAll digits _)
  split_ifs
  · exact grows_choose digits (env.rand s.rands) { s with rands := s.rands + 1 }
  · exact List.Subset.refl _

theorem grows_readLine (line : List Char) : Grows fun s => readLine env prompt digits s line := by
  refine grows_andThen (fun s => List.Subset.refl _) fun s => ?_
  split
  · have ends : Grows (stop .exit) := fun t => List.Subset.refl t.indexes
    have kills : Grows (loop killChild digits.toNat 0) := grows_loop (fun i => grows_access i) _ _
    exact grows_andThen kills ends s
  · exact grows_runJob line s
  · exact List.Subset.refl _

theorem Sound.before {next : Parent → Parent} (grows : Grows next) (sound : Sound digits (s.andThen next)) :
    Sound digits s := by
  refine ⟨fun i member => sound.indexes i (subset_andThen grows s member), fun ended => sound.nonzero ?_⟩
  rw [andThen_ended ended, ended]

theorem Sound.of_run {lines : List (List Char)} (sound : Sound digits (lines.foldl (Parent.readLine env prompt digits) s)) :
    Sound digits s := by
  induction lines generalizing s with
  | nil => exact sound
  | cons line lines ih =>
    have next : Sound digits (s.readLine env prompt digits line) := ih sound
    refine ⟨fun i member => next.indexes i (grows_readLine line s member), fun ended => next.nonzero ?_⟩
    rw [Parent.readLine, andThen_ended ended, ended]

/-- A remainder for no children. -/
theorem choose_none (none : digits ≤ 0) (v : Nat) : ¬ Sound digits (s.choose digits v) := by
  intro sound
  unfold choose at sound
  split_ifs at sound with zero
  · exact sound.nonzero rfl
  · have recorded : (v : Int).tmod digits ∈ (s.access ((v : Int).tmod digits)).indexes := by
      unfold access
      split_ifs
      · exact List.mem_append_right _ List.mem_cons_self
      · exact List.mem_append_right _ List.mem_cons_self
    have reads : Grows fun t => { t with sendTo := t.pidArray ((v : Int).tmod digits).toNat } :=
      fun t => List.Subset.refl t.indexes
    have bounds := (sound.before reads).indexes _ recorded
    omega

theorem runJob_none (none : digits ≤ 0) (prompted : prompt = random ∨ prompt = roundRobin) (running : s.ending = .none)
    (line : List Char) : ¬ Sound digits (s.runJob env prompt digits line) := by
  intro sound
  have turned := sound.before (grows_sendAll digits _)
  rcases prompted with rfl | rfl
  · have chosen := turned.before grows_turn
    rw [if_pos rfl] at chosen
    exact choose_none none _ chosen
  · rw [if_neg (by decide), andThen_running running, if_pos rfl] at turned
    exact choose_none none _ (turned.before grows_countUp)

theorem run_none (none : digits ≤ 0) (prompted : prompt = random ∨ prompt = roundRobin) (running : s.ending = .none)
    {lines : List (List Char)} (job : acceptedLines lines ≠ []) :
    ¬ Sound digits (lines.foldl (readLine env prompt digits) s) := by
  induction lines with
  | nil => exact absurd rfl job
  | cons line lines ih =>
    rw [List.foldl_cons]
    cases checked : (checkInput line).ret with
    | none => exact absurd (accepted_exit lines checked) job
    | some value =>
      by_cases accepted : value = 0
      · subst accepted
        rw [readLine_job running checked]
        exact fun sound => runJob_none none prompted running line sound.of_run
      · rw [readLine_refused checked accepted]
        exact ih (accepted_refused lines checked accepted ▸ job)

/-- While the counter has not run over, it is the number of jobs. -/
structure Counted (env : Environment) (n : Nat) (s : Parent) : Prop where
  writes : ∀ w ∈ s.writes, w.job + 1 < 2 ^ 31
  running : s.ending = none → Created env n s ∧ s.jobs = s.iterator

theorem Counted.readLine {n : Nat} (any : 0 < n) (few : n ≤ 50) (counted : Counted env n s) (line : List Char) :
    Counted env n (s.readLine env roundRobin n line) := by
  cases running : s.ending with
  | some ending => rwa [Parent.readLine, andThen_ended running]
  | none =>
    obtain ⟨created, count⟩ := counted.running running
    cases checked : (checkInput line).ret with
    | none =>
      obtain ⟨ended, writes⟩ := killAll_ended (show (n : Int) ≤ 50 by omega) running
      rw [readLine_exit running checked]
      exact ⟨writes ▸ counted.writes, fun runs => by rw [ended] at runs; cases runs⟩
    | some value =>
      by_cases job : value = 0
      · subst job
        rw [readLine_job running checked]
        by_cases room : s.iterator + 1 < 2 ^ 31
        · obtain ⟨still, iterator, jobs, writes⟩ := runJob_turn created any few line room rfl
          refine ⟨fun w member => ?_, fun _ => ⟨still, by rw [jobs, iterator, count]⟩⟩
          rw [writes] at member
          rcases List.mem_append.mp member with old | new
          · exact counted.writes w old
          · rw [List.mem_singleton.mp new, count]
            exact room
        · obtain ⟨ended, writes⟩ := runJob_overflow created any few line room
          exact ⟨writes ▸ counted.writes, fun runs => by rw [ended] at runs; cases runs⟩
      · rwa [readLine_refused checked job]

/-- Creating the children writes to no pipe and counts no job. -/
theorem create_fresh (env : Environment) (digits : Int) :
    (boot.create env digits).writes = [] ∧ (boot.create env digits).jobs = 0 ∧ (boot.create env digits).iterator = 0 := by
  have keeps : ∀ (i : Nat) (t : Parent), (t.writes = [] ∧ t.jobs = 0 ∧ t.iterator = 0) →
      (createChild env i t).writes = [] ∧ (createChild env i t).jobs = 0 ∧ (createChild env i t).iterator = 0 := by
    intro i t fresh
    unfold createChild access andThen
    split_ifs <;> exact fresh
  unfold create
  split_ifs
  · exact @loop_keeps boot (fun t => t.writes = [] ∧ t.jobs = 0 ∧ t.iterator = 0) _ _ 0 _ (Nat.le_refl _)
      (fun i t _ fresh => keeps i t fresh) ⟨rfl, rfl, rfl⟩
  · exact ⟨rfl, rfl, rfl⟩

end Parent

/-! ### The parent as a whole -/

/-- What the parent does with its children and jobs, whatever the system answers. -/
structure Served (env : Environment) (argv : List (List Char)) (prompt : List Char) (lines : List (List Char)) : Prop where
  indexes : ∀ i ∈ (mainLines env argv lines).indexes, 0 ≤ i ∧ i < 50 ∧ i < nChildren argv
  nonzero : (mainLines env argv lines).ending ≠ some .moduloByZero
  turns : prompt = roundRobin → (Parent.boot.create env (nChildren argv)).ending = none →
    (mainLines env argv lines).writes = (acceptedLines lines).zipIdx.map (Parent.turn (nChildren argv).toNat)

theorem prompt_cases {argv : List (List Char)} {prompt : List Char} (checked : checkArgumentErrors argv = .ok prompt) :
    prompt = random ∨ prompt = roundRobin := by
  unfold checkArgumentErrors at checked
  split at checked
  · split_ifs at checked
    exact Or.inr (Except.ok.inj checked).symm
  · split_ifs at checked with _ other
    obtain rfl := Except.ok.inj checked
    by_contra neither
    exact other ⟨fun same => neither (Or.inr same), fun same => neither (Or.inl same)⟩
  · cases checked

theorem mainLines_eq {argv : List (List Char)} {prompt : List Char} (checked : checkArgumentErrors argv = .ok prompt)
    (env : Environment) (lines : List (List Char)) : mainLines env argv lines =
      lines.foldl (Parent.readLine env prompt (nChildren argv)) (Parent.boot.create env (nChildren argv)) := by
  rw [mainLines, checked]

/-- The jobs that the counter has no room for. -/
theorem counted_jobs {n : Nat} (any : 0 < n) (few : n ≤ 50) (lines : List (List Char))
    (turns : (lines.foldl (Parent.readLine Parent.smooth roundRobin n) (Parent.boot.create Parent.smooth n)).writes =
      (acceptedLines lines).zipIdx.map (Parent.turn n)) : (acceptedLines lines).length < 2 ^ 31 := by
  have fresh := Parent.create_fresh Parent.smooth n
  have start : Parent.Counted Parent.smooth n (Parent.boot.create Parent.smooth n) := by
    refine ⟨fun w member => ?_, fun running => ⟨?_, fresh.2.1.trans fresh.2.2.symm⟩⟩
    · rw [fresh.1] at member
      cases member
    · have created := Parent.create_created (show (n : Int) ≤ 50 by omega) running
      rwa [Int.toNat_natCast] at created
  have counted := foldl_invariant (I := Parent.Counted Parent.smooth n)
    (fun s line counted => Parent.Counted.readLine any few counted line) start lines
  by_contra many
  have last : 2 ^ 31 - 1 < (acceptedLines lines).length := by omega
  have written : Parent.turn n ((acceptedLines lines)[2 ^ 31 - 1], 2 ^ 31 - 1) ∈
      (acceptedLines lines).zipIdx.map (Parent.turn n) :=
    List.mem_map_of_mem (List.mem_zipIdx_iff_getElem?.mpr (List.getElem?_eq_getElem last))
  rw [← turns] at written
  have small : 2 ^ 31 - 1 + 1 < 2 ^ 31 := counted.writes _ written
  omega

theorem written_in_turns {n : Nat} (any : 0 < n) (few : n ≤ 50) {env : Environment} {lines : List (List Char)}
    (running : (Parent.boot.create env n).ending = none) (room : (acceptedLines lines).length < 2 ^ 31) :
    (lines.foldl (Parent.readLine env roundRobin n) (Parent.boot.create env n)).writes =
      (acceptedLines lines).zipIdx.map (Parent.turn n) := by
  obtain ⟨writes, jobs, iterator⟩ := Parent.create_fresh env n
  have created := Parent.create_created (show (n : Int) ≤ 50 by omega) running
  rw [Int.toNat_natCast] at created
  rw [Parent.run_turns any few lines created (jobs.trans iterator.symm) (by omega), writes, iterator]
  rfl

theorem jobs_served_iff {argv : List (List Char)} {prompt : List Char} (checked : checkArgumentErrors argv = .ok prompt)
    (lines : List (List Char)) :
    (∀ env, Served env argv prompt lines) ↔
      nChildren argv ≤ 50 ∧ (acceptedLines lines ≠ [] → 1 ≤ nChildren argv) ∧
        (prompt = roundRobin → (acceptedLines lines).length < 2 ^ 31) := by
  constructor
  · intro served
    have smooth := served Parent.smooth
    have sound : Parent.Sound (nChildren argv) (lines.foldl (Parent.readLine Parent.smooth prompt (nChildren argv))
        (Parent.boot.create Parent.smooth (nChildren argv))) :=
      mainLines_eq checked Parent.smooth lines ▸ ⟨smooth.indexes, smooth.nonzero⟩
    have few : nChildren argv ≤ 50 := by
      by_contra many
      exact Parent.create_past (Int.not_le.mp many) lines sound
    have any : acceptedLines lines ≠ [] → 1 ≤ nChildren argv := by
      intro job
      by_contra none
      exact Parent.run_none (by omega) (prompt_cases checked) (Parent.create_smooth few) job sound
    refine ⟨few, any, fun prompted => ?_⟩
    by_cases job : acceptedLines lines = []
    · rw [job]
      decide
    · have positive := any job
      obtain ⟨n, children⟩ := Int.eq_ofNat_of_zero_le (show 0 ≤ nChildren argv by omega)
      have turns := smooth.turns prompted (Parent.create_smooth few)
      rw [mainLines_eq checked, prompted, children] at turns
      exact counted_jobs (by omega) (by omega) lines turns
  · intro condition env
    obtain ⟨few, any, room⟩ := condition
    have sound : Parent.Sound (nChildren argv) (mainLines env argv lines) := by
      rw [mainLines_eq checked]
      exact ((Parent.boot_sound (nChildren argv)).create few).run few any
    refine ⟨sound.indexes, sound.nonzero, fun prompted running => ?_⟩
    rw [mainLines_eq checked]
    by_cases job : acceptedLines lines = []
    · rw [Parent.run_idle few job, (Parent.create_fresh env (nChildren argv)).1, job]
      rfl
    · have positive := any job
      obtain ⟨n, children⟩ := Int.eq_ofNat_of_zero_le (show 0 ≤ nChildren argv by omega)
      rw [children] at running
      rw [children, prompted, Int.toNat_natCast]
      exact written_in_turns (by omega) (by omega) running (room prompted)

theorem jobs_served_three : checkArgumentErrors ["ask3".toList, "3".toList] = .ok roundRobin ∧
    ∀ env, Served env ["ask3".toList, "3".toList] roundRobin ["7\n".toList, "8\n".toList] :=
  ⟨rfl, (jobs_served_iff rfl _).mpr ⟨by decide, fun _ => by decide, fun _ => by decide⟩⟩

theorem no_children_modulo_zero : ¬ ∀ env, Served env ["ask3".toList, "0".toList] roundRobin ["1\n".toList] := by
  intro served
  exact (served Parent.smooth).nonzero (by decide)

end OsLab.Projects
