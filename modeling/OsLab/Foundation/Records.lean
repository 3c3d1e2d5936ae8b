import Mathlib.Data.List.Pairwise
import Mathlib.Logic.Function.Iterate
import Mathlib.Order.Nat

/-!
# Records laid end to end

Loops that can leave early, and records of varying length that lie one behind the other. A loop
that walks from record to record is a fold over the list of records.
-/

namespace Records

variable {α β σ τ : Type*}

/-- How a round of a loop ends. -/
inductive Loop (α σ : Type*) where
  | exit (a : α)
  | next (s : σ)

def Loop.bind : Loop α σ → (σ → Loop α τ) → Loop α τ
  | .exit a, _ => .exit a
  | .next s, f => f s

@[simp] theorem Loop.bind_exit (a : α) (f : σ → Loop α τ) : (Loop.exit a).bind f = .exit a := rfl

@[simp] theorem Loop.bind_next (s : σ) (f : σ → Loop α τ) : (Loop.next s : Loop α σ).bind f = f s := rfl

/-- Rounds `i`, `i + 1`, … of a counting loop. -/
def rounds (body : Nat → σ → Loop α σ) : Nat → Nat → σ → Loop α σ
  | 0, _, s => .next s
  | left + 1, i, s => (body i s).bind (rounds body left (i + 1))

theorem rounds_add (body : Nat → σ → Loop α σ) (m n i : Nat) (s : σ) :
    rounds body (m + n) i s = (rounds body m i s).bind (rounds body n (i + m)) := by
  induction m generalizing i s with
  | zero => rw [Nat.zero_add]; rfl
  | succ m ih =>
    rw [Nat.add_right_comm, rounds, rounds]
    cases body i s with
    | exit a => rfl
    | next s =>
      rw [Loop.bind_next, Loop.bind_next, ih, Nat.add_right_comm, Nat.add_assoc]

/-- The first round that leaves a loop without a state tells how it ends. -/
theorem rounds_exit_iff {body : Nat → Unit → Loop α Unit} {a : α} (n i : Nat) :
    rounds body n i () = .exit a ↔
      ∃ j, i ≤ j ∧ j < i + n ∧ body j () = .exit a ∧ ∀ k, i ≤ k → k < j → body k () = .next () := by
  induction n generalizing i with
  | zero =>
    constructor
    · intro left
      cases left
    · rintro ⟨j, low, high, -⟩
      omega
  | succ n ih =>
    rw [rounds]
    cases first : body i () with
    | exit b =>
      constructor
      · intro left
        exact ⟨i, Nat.le_refl i, by omega, first.trans left, fun k low high => absurd low (by omega)⟩
      · rintro ⟨j, low, -, left, before⟩
        rcases Nat.eq_or_lt_of_le low with rfl | later
        · exact first.symm.trans left
        · have silent := before i (Nat.le_refl i) later
          rw [first] at silent
          cases silent
    | next u =>
      rw [Loop.bind_next, ih]
      constructor
      · rintro ⟨j, low, high, left, before⟩
        refine ⟨j, by omega, by omega, left, fun k low' high' => ?_⟩
        rcases Nat.eq_or_lt_of_le low' with rfl | later
        · exact first
        · exact before k later high'
      · rintro ⟨j, low, high, left, before⟩
        rcases Nat.eq_or_lt_of_le low with rfl | later
        · rw [first] at left
          cases left
        · exact ⟨j, later, by omega, left, fun k low' high' => before k (by omega) high'⟩

/-- A loop over offsets, which tells where it stopped. Its fuel bounds the number of rounds. -/
def walk (inside : Nat → Bool) (visit : σ → Nat → Loop α σ) (next : Nat → Nat) : Nat → σ → Nat → Loop α (σ × Nat)
  | 0, s, off => .next (s, off)
  | fuel + 1, s, off =>
    if inside off then (visit s off).bind fun s => walk inside visit next fuel s (next off) else .next (s, off)

def fold (f : σ → β → Loop α σ) : σ → List β → Loop α σ
  | s, [] => .next s
  | s, r :: rs => (f s r).bind fun s => fold f s rs

theorem fold_append (f : σ → β → Loop α σ) (s : σ) (as bs : List β) :
    fold f s (as ++ bs) = (fold f s as).bind fun s => fold f s bs := by
  induction as generalizing s with
  | nil => rfl
  | cons r as ih =>
    simp only [List.cons_append, fold]
    cases f s r with
    | exit a => rfl
    | next s => exact ih s

/-- A round of a search for the first record with `p`. -/
def search (p : β → Bool) (a : β → α) (u : Unit) (r : β) : Loop α Unit := if p r then .exit (a r) else .next u

theorem fold_search (p : β → Bool) (a : β → α) (rs : List β) :
    fold (search p a) () rs = match rs.find? p with
      | some r => .exit (a r)
      | none => .next () := by
  induction rs with
  | nil => rfl
  | cons r rs ih =>
    rw [fold, search, List.find?_cons]
    cases p r with
    | true => rfl
    | false => exact ih

/-- A loop that remembers the record before. -/
theorem fold_last (g : β → τ) (rs : List β) (before : Option τ) :
    fold (fun _ r => (.next (some (g r)) : Loop α (Option τ))) before rs = .next ((rs.getLast?.map g).or before) := by
  induction rs generalizing before with
  | nil => rfl
  | cons r rs ih =>
    rw [fold, Loop.bind_next, ih]
    cases rs with
    | nil => rfl
    | cons r' rs => rw [List.getLast?_cons_cons]; simp [List.getLast?_cons]

/-! ### Layout -/

variable {start len : β → Nat} {o e m : Nat} {r : β} {rs as bs : List β}

/-- The records fill the bytes from `o` to `e`. -/
def Laid (start len : β → Nat) : Nat → List β → Nat → Prop
  | o, [], e => o = e
  | o, r :: rs, e => start r = o ∧ 0 < len r ∧ Laid start len (o + len r) rs e

theorem laid_append : Laid start len o (as ++ bs) e ↔ ∃ m, Laid start len o as m ∧ Laid start len m bs e := by
  induction as generalizing o with
  | nil => simp [Laid]
  | cons r as ih => simp [Laid, ih, and_assoc]

theorem Laid.length (laid : Laid start len o rs e) : o + rs.length ≤ e := by
  induction rs generalizing o with
  | nil => exact le_of_eq laid
  | cons r rs ih =>
    obtain ⟨-, pos, rest⟩ := laid
    have bound := ih rest
    rw [List.length_cons]
    omega

theorem Laid.le (laid : Laid start len o rs e) : o ≤ e := by
  have bound := laid.length
  omega

theorem Laid.mem (laid : Laid start len o rs e) (member : r ∈ rs) : o ≤ start r ∧ start r + len r ≤ e := by
  obtain ⟨as, bs, rfl⟩ := List.append_of_mem member
  obtain ⟨m, before, here, -, after⟩ := laid_append.mp laid
  have low := before.le
  have high := after.le
  omega

/-- An offset that lies inside no record separates the records. -/
theorem Laid.split (laid : Laid start len o rs e) (low : o ≤ m) (high : m ≤ e)
    (free : ∀ r, r ∈ rs → m ≤ start r ∨ start r + len r ≤ m) :
    ∃ as bs, rs = as ++ bs ∧ Laid start len o as m ∧ Laid start len m bs e := by
  induction rs generalizing o with
  | nil =>
    have same : o = e := laid
    exact ⟨[], [], rfl, show o = m by omega, show m = e by omega⟩
  | cons r rs ih =>
    by_cases first : m = o
    · subst first
      exact ⟨[], r :: rs, rfl, rfl, laid⟩
    · obtain ⟨here, pos, rest⟩ := laid
      rcases free r List.mem_cons_self with before | after
      · omega
      · obtain ⟨as, bs, rfl, left, right⟩ := ih rest (by omega) fun r' member => free r' (List.mem_cons_of_mem _ member)
        exact ⟨r :: as, bs, rfl, ⟨here, pos, left⟩, right⟩

theorem Laid.first (laid : Laid start len o rs e) (high : m ≤ e) :
    ∃ as bs p, rs = as ++ bs ∧ Laid start len o as p ∧ Laid start len p bs e ∧ m ≤ p ∧ (∀ r, r ∈ as → start r < m) ∧
      ∀ k, o ≤ k → m ≤ k → (∀ r, r ∈ rs → k ≤ start r ∨ start r + len r ≤ k) → p ≤ k := by
  induction rs generalizing o with
  | nil =>
    have same : o = e := laid
    exact ⟨[], [], o, rfl, rfl, same, by omega, by simp, fun k low _ _ => low⟩
  | cons r rs ih =>
    by_cases behind : m ≤ o
    · exact ⟨[], r :: rs, o, rfl, rfl, laid, behind, by simp, fun k low _ _ => low⟩
    · obtain ⟨here, pos, rest⟩ := laid
      obtain ⟨as, bs, p, split, before, after, low, front, least⟩ := ih rest
      refine ⟨r :: as, bs, p, congrArg (r :: ·) split, ⟨here, pos, before⟩, after, low, ?_, ?_⟩
      · intro r' member
        rcases List.mem_cons.mp member with rfl | later
        · omega
        · exact front r' later
      · intro k low' high' free
        have past := free r List.mem_cons_self
        exact least k (by omega) high' fun r' member => free r' (List.mem_cons_of_mem _ member)

theorem Laid.inj (laid : Laid start len o rs e) {r' : β} (member : r ∈ rs) (member' : r' ∈ rs)
    (same : start r = start r') : r = r' := by
  induction rs generalizing o with
  | nil => cases member
  | cons q rs ih =>
    obtain ⟨here, pos, rest⟩ := laid
    rcases List.mem_cons.mp member with rfl | later <;> rcases List.mem_cons.mp member' with rfl | later'
    · rfl
    · have low := (rest.mem later').1
      omega
    · have low := (rest.mem later).1
      omega
    · exact ih rest later later'

theorem Laid.shift (laid : Laid start len o rs e) {k : Nat} (low : k ≤ o) :
    Laid (fun r => start r - k) len (o - k) rs (e - k) := by
  induction rs generalizing o with
  | nil => exact congrArg (· - k) laid
  | cons r rs ih =>
    obtain ⟨rfl, pos, rest⟩ := laid
    have next := ih rest (low.trans (Nat.le_add_right _ _))
    rw [Nat.sub_add_comm low] at next
    exact ⟨rfl, pos, next⟩

/-! ### Walking -/

variable {inside : Nat → Bool} {visit : σ → Nat → Loop α σ} {next : Nat → Nat} {f : σ → β → Loop α σ}

/-- As long as its bound lets it, a walk visits every record. -/
theorem walk_within (laid : Laid start len o rs e) (follows : ∀ r, r ∈ rs → next (start r) = start r + len r)
    (within : ∀ r, r ∈ rs → inside (start r) = true) (visits : ∀ r, r ∈ rs → ∀ s, visit s (start r) = f s r)
    (fuel : Nat) (s : σ) :
    walk inside visit next (rs.length + fuel) s o = (fold f s rs).bind fun s => walk inside visit next fuel s e := by
  induction rs generalizing o s with
  | nil =>
    have same : o = e := laid
    rw [List.length_nil, Nat.zero_add, same]
    rfl
  | cons r rs ih =>
    obtain ⟨rfl, -, rest⟩ := laid
    rw [List.length_cons, Nat.add_right_comm, walk, within r List.mem_cons_self, if_pos rfl,
      visits r List.mem_cons_self, follows r List.mem_cons_self, fold]
    cases f s r with
    | exit a => rfl
    | next s =>
      exact ih rest (fun r' member => follows r' (List.mem_cons_of_mem _ member))
        (fun r' member => within r' (List.mem_cons_of_mem _ member))
        (fun r' member => visits r' (List.mem_cons_of_mem _ member)) s

theorem walk_exit {a : α} {fuel : Nat} {s : σ} (left : walk inside visit next fuel s o = .exit a) :
    ∃ t x, visit t x = .exit a := by
  induction fuel generalizing s o with
  | zero => cases left
  | succ fuel ih =>
    rw [walk] at left
    by_cases bound : inside o = true
    · rw [if_pos bound] at left
      cases visited : visit s o with
      | exit b =>
        rw [visited, Loop.bind_exit] at left
        obtain rfl := Loop.exit.inj left
        exact ⟨s, o, visited⟩
      | next t =>
        rw [visited, Loop.bind_next] at left
        exact ih left
    · rw [if_neg bound] at left
      cases left

/-- The offset at which a walk has left lies inside the bound, at or behind its start. -/
theorem walk_exit_place {a : α} {fuel : Nat} {s : σ} (forward : ∀ x, x ≤ next x)
    (left : walk inside visit next fuel s o = .exit a) : ∃ t x, o ≤ x ∧ inside x = true ∧ visit t x = .exit a := by
  induction fuel generalizing s o with
  | zero => cases left
  | succ fuel ih =>
    rw [walk] at left
    by_cases bound : inside o = true
    · rw [if_pos bound] at left
      cases visited : visit s o with
      | exit b =>
        rw [visited, Loop.bind_exit] at left
        obtain rfl := Loop.exit.inj left
        exact ⟨s, o, le_rfl, bound, visited⟩
      | next t =>
        rw [visited, Loop.bind_next] at left
        obtain ⟨t, x, behind, rest⟩ := ih left
        exact ⟨t, x, (forward o).trans behind, rest⟩
    · rw [if_neg bound] at left
      cases left

def Loop.forget : Loop α (σ × Nat) → Loop α σ
  | .exit a => .exit a
  | .next (s, _) => .next s

theorem forget_exit {loop : Loop α (σ × Nat)} {a : α} (left : loop.forget = .exit a) : loop = .exit a := by
  cases loop with
  | exit b => exact congrArg Loop.exit (Loop.exit.inj left)
  | next s => cases left

theorem fold_silent (silent : ∀ r, r ∈ rs → ∀ s, f s r = .next s) (s : σ) : fold f s rs = .next s := by
  induction rs with
  | nil => rfl
  | cons r rs ih =>
    rw [fold, silent r List.mem_cons_self]
    exact ih fun r' member => silent r' (List.mem_cons_of_mem _ member)

/-- A walk that stops at its bound misses only records on which nothing would have happened. -/
theorem walk_forget (laid : Laid start len o rs e) (follows : ∀ r, r ∈ rs → next (start r) = start r + len r)
    (down : ∀ x y, x ≤ y → inside y = true → inside x = true) (ends : inside e = false)
    (visits : ∀ r, r ∈ rs → inside (start r) = true → ∀ s, visit s (start r) = f s r)
    (silent : ∀ r, r ∈ rs → inside (start r) = false → ∀ s, f s r = .next s)
    {fuel : Nat} (enough : rs.length < fuel) (s : σ) :
    (walk inside visit next fuel s o).forget = fold f s rs := by
  induction rs generalizing o s fuel with
  | nil =>
    have same : o = e := laid
    obtain ⟨left, rfl⟩ : ∃ left, fuel = left + 1 := ⟨fuel - 1, by simp only [List.length_nil] at enough; omega⟩
    rw [walk, same, ends]
    rfl
  | cons r rs ih =>
    obtain ⟨rfl, pos, rest⟩ := laid
    obtain ⟨left, rfl⟩ : ∃ left, fuel = left + 1 := ⟨fuel - 1, by omega⟩
    cases bound : inside (start r) with
    | true =>
      rw [walk, bound, if_pos rfl, visits r List.mem_cons_self bound, follows r List.mem_cons_self, fold]
      cases f s r with
      | exit a => rfl
      | next s =>
        exact ih rest (fun r' member => follows r' (List.mem_cons_of_mem _ member))
          (fun r' member => visits r' (List.mem_cons_of_mem _ member))
          (fun r' member => silent r' (List.mem_cons_of_mem _ member))
          (by simp only [List.length_cons] at enough; omega) s
    | false =>
      have beyond : ∀ r', r' ∈ r :: rs → inside (start r') = false := by
        intro r' member
        have low : start r ≤ start r' := by
          rcases List.mem_cons.mp member with rfl | later
          · exact le_rfl
          · exact (Nat.le_add_right _ _).trans (rest.mem later).1
        by_contra other
        rw [Bool.not_eq_false] at other
        rw [down _ _ low other] at bound
        cases bound
      rw [walk, bound, fold_silent fun r' member => silent r' member (beyond r' member)]
      rfl

/-- The offsets at which a walk that comes to its end has been are those of records laid end to end. -/
theorem walk_laid {record : Nat → β} (places : ∀ x, start (record x) = x)
    (steps : ∀ x s t, inside x = true → visit s x = .next t → 0 < len (record x) ∧ next x = x + len (record x))
    {fuel : Nat} {s t : σ} (ends : walk inside visit next fuel s o = .next (t, e)) :
    ∃ rs, Laid start len o rs e ∧
      ∀ r, r ∈ rs → r = record (start r) ∧ inside (start r) = true ∧ ∃ s t, visit s (start r) = .next t := by
  induction fuel generalizing o s with
  | zero =>
    obtain ⟨-, rfl⟩ := Prod.mk.inj (Loop.next.inj ends)
    exact ⟨[], rfl, by simp⟩
  | succ fuel ih =>
    rw [walk] at ends
    split_ifs at ends with bound
    · cases visited : visit s o with
      | exit a =>
        rw [visited] at ends
        cases ends
      | next s' =>
        rw [visited, Loop.bind_next] at ends
        obtain ⟨pos, follows⟩ := steps o s s' bound visited
        rw [follows] at ends
        obtain ⟨rs, laid, seen⟩ := ih ends
        refine ⟨record o :: rs, ⟨places o, pos, laid⟩, fun r member => ?_⟩
        rcases List.mem_cons.mp member with rfl | later
        · rw [places o]
          exact ⟨rfl, bound, s, s', visited⟩
        · exact seen r later
    · obtain ⟨-, rfl⟩ := Prod.mk.inj (Loop.next.inj ends)
      exact ⟨[], rfl, by simp⟩

/-- Steps from record to record reach every record and then the end. -/
theorem Laid.iterate (laid : Laid start len o rs e) (follows : ∀ r, r ∈ rs → next (start r) = start r + len r) :
    next^[rs.length] o = e ∧ ∀ i (here : i < rs.length), next^[i] o = start rs[i] := by
  induction rs generalizing o with
  | nil => exact ⟨laid, fun i here => absurd here (Nat.not_lt_zero i)⟩
  | cons r rs ih =>
    obtain ⟨rfl, -, rest⟩ := laid
    have first := follows r List.mem_cons_self
    obtain ⟨ends, visits⟩ := ih rest fun r' member => follows r' (List.mem_cons_of_mem _ member)
    refine ⟨?_, fun i here => ?_⟩
    · rw [List.length_cons, Function.iterate_succ_apply, first, ends]
    · cases i with
      | zero => rfl
      | succ i =>
        rw [Function.iterate_succ_apply, first, visits i (Nat.lt_of_succ_lt_succ here), List.getElem_cons_succ]

theorem Laid.lift {start' : β → Nat} {k : Nat} (laid : Laid start' len o rs e)
    (above : ∀ r, r ∈ rs → start r = k + start' r) : Laid start len (k + o) rs (k + e) := by
  induction rs generalizing o with
  | nil => exact congrArg (k + ·) laid
  | cons r rs ih =>
    obtain ⟨rfl, pos, rest⟩ := laid
    have later := ih rest fun r' member => above r' (List.mem_cons_of_mem _ member)
    rw [← Nat.add_assoc] at later
    exact ⟨above r List.mem_cons_self, pos, later⟩

end Records
