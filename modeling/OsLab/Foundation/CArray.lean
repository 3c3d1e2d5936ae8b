import Mathlib.Data.List.Basic
import OsLab.Foundation.CText
import OsLab.Foundation.Substrings

/-!
# Arrays of C

The string functions on an array of bytes, given from the byte that their pointer points at. An
access past the end of the array is a fault.
-/

namespace CArray
open CText Substrings

inductive Fault where
  | outOfBounds
  | unfinished
  deriving DecidableEq, Repr

def strlen : List Char → Except Fault Nat
  | [] => .error .outOfBounds
  | c :: bytes => if c = nul then .ok 0 else (strlen bytes).map (· + 1)

/-- `strncmp(bytes, word, strlen(word)) == 0`. -/
def startsWith : List Char → List Char → Except Fault Bool
  | [], _ => .ok true
  | _ :: _, [] => .error .outOfBounds
  | x :: word, c :: bytes => if x = c then startsWith word bytes else .ok false

/-- How far the first occurrence is. -/
def strstr (word : List Char) : List Char → Except Fault (Option Nat)
  | [] => .error .outOfBounds
  | c :: bytes => do
    if ← startsWith word (c :: bytes) then pure (some 0)
    else if c = nul then pure none
    else (·.map (· + 1)) <$> strstr word bytes

def memmove (bytes : List Char) (dst src n : Nat) : Except Fault (List Char) :=
  if dst + n ≤ bytes.length ∧ src + n ≤ bytes.length then
    .ok (bytes.take dst ++ ((bytes.drop src).take n ++ bytes.drop (dst + n)))
  else .error .outOfBounds

def store (bytes : List Char) (i : Nat) (c : Char) : Except Fault (List Char) :=
  if i < bytes.length then .ok (bytes.set i c) else .error .outOfBounds

/-- The text that a `%s` or an `atoi` reads. -/
def readText (bytes : List Char) : Except Fault (List Char) :=
  if nul ∈ bytes then .ok (text bytes) else .error .outOfBounds

def strspn (delim : Char) : List Char → Except Fault Nat
  | [] => .error .outOfBounds
  | c :: bytes => if c = delim then (strspn delim bytes).map (· + 1) else .ok 0

def strcspn (delim : Char) : List Char → Except Fault Nat
  | [] => .error .outOfBounds
  | c :: bytes => if c = delim ∨ c = nul then .ok 0 else (strcspn delim bytes).map (· + 1)

def strtokEnd (delim : Char) (bytes : List Char) (start stop : Nat) : Option (Nat × Nat) × List Char × Nat :=
  if stop = start then (none, bytes, start)
  else if bytes[stop]? = some delim then (some (start, stop), bytes.set stop nul, stop + 1)
  else (some (start, stop), bytes, stop)

/-- What `strtok` returns, from the place that it saved: where the token begins and ends, the array with a NUL behind
it, and the next place. -/
def strtok (delim : Char) (bytes : List Char) (saved : Nat) : Except Fault (Option (Nat × Nat) × List Char × Nat) := do
  let start := saved + (← strspn delim (bytes.drop saved))
  let stop := start + (← strcspn delim (bytes.drop start))
  pure (strtokEnd delim bytes start stop)

/-- Where the first words of a text lie, up to so many, for a text that begins at `p`. -/
def words (delim : Char) : Nat → Nat → List Char → List (Nat × Nat)
  | 0, _, _ => []
  | n + 1, p, s =>
    let start := p + (s.takeWhile (· = delim)).length
    let rest := s.dropWhile (· = delim)
    let stop := start + (rest.takeWhile (· ≠ delim)).length
    if rest = [] then [] else (start, stop) :: words delim n stop (rest.dropWhile (· ≠ delim))

/-! ### On texts that end inside the array -/

theorem readText_inside (before s rest : List Char) {i : Nat} (inside : i ≤ before.length) :
    ∃ out, readText ((before ++ (s ++ nul :: rest)).drop i) = .ok out := by
  refine ⟨_, if_pos ?_⟩
  rw [List.drop_append_of_le_length inside]
  exact List.mem_append_right _ (List.mem_append_right s List.mem_cons_self)

theorem strlen_text {s : List Char} (plain : nul ∉ s) (rest : List Char) : strlen (s ++ nul :: rest) = .ok s.length := by
  induction s with
  | nil => rfl
  | cons c s ih =>
    have other : c ≠ nul := fun same => plain (same ▸ List.mem_cons_self)
    rw [List.cons_append, strlen, if_neg other, ih fun member => plain (List.mem_cons_of_mem c member)]
    rfl

theorem strlen_unterminated {s : List Char} (plain : nul ∉ s) : strlen s = .error .outOfBounds := by
  induction s with
  | nil => rfl
  | cons c s ih =>
    have other : c ≠ nul := fun same => plain (same ▸ List.mem_cons_self)
    rw [strlen, if_neg other, ih fun member => plain (List.mem_cons_of_mem c member)]
    rfl

theorem startsWith_text {word : List Char} (plain : nul ∉ word) (s rest : List Char) :
    startsWith word (s ++ nul :: rest) = .ok (decide (word <+: s)) := by
  induction word generalizing s with
  | nil => simp [startsWith]
  | cons x word ih =>
    have other : x ≠ nul := fun same => plain (same ▸ List.mem_cons_self)
    cases s with
    | nil =>
      rw [List.nil_append, startsWith, if_neg other]
      simp
    | cons c s =>
      rw [List.cons_append, startsWith]
      split_ifs with same
      · rw [ih fun member => plain (List.mem_cons_of_mem x member)]
        simp [List.cons_prefix_cons, same]
      · simp [List.cons_prefix_cons, same]

theorem startsWith_long {word bytes : List Char} (long : word.length ≤ bytes.length) :
    startsWith word bytes = .ok (decide (word <+: bytes)) := by
  induction word generalizing bytes with
  | nil => simp [startsWith]
  | cons x word ih =>
    cases bytes with
    | nil => cases long
    | cons c bytes =>
      rw [startsWith]
      split_ifs with same
      · rw [ih (Nat.le_of_succ_le_succ long)]
        simp [List.cons_prefix_cons, same]
      · simp [List.cons_prefix_cons, same]

theorem strstr_cons {word : List Char} {c : Char} {bytes : List Char} (other : c ≠ nul)
    (absent : startsWith word (c :: bytes) = .ok false) :
    strstr word (c :: bytes) = (strstr word bytes).map (·.map (· + 1)) := by
  rw [strstr, absent]
  show (if c = nul then pure none else (·.map (· + 1)) <$> strstr word bytes) = _
  rw [if_neg other]
  rfl

/-- `strstr` finds the occurrence that the pass deletes next. -/
theorem strstr_text {word : List Char} (plain : nul ∉ word) (some : word ≠ []) {s : List Char} (text : nul ∉ s) :
    ((∀ rest, strstr word (s ++ nul :: rest) = .ok none) ∧ pass word s = s) ∨
      ∃ a b, s = a ++ (word ++ b) ∧ (∀ rest, strstr word (s ++ nul :: rest) = .ok (Option.some a.length)) ∧
        pass word s = a ++ pass word b := by
  induction s with
  | nil =>
    refine Or.inl ⟨fun rest => ?_, pass_nil word⟩
    have absent := startsWith_text plain [] rest
    rw [List.nil_append, decide_eq_false (fun starts => some (List.prefix_nil.mp starts))] at absent
    rw [List.nil_append, strstr, absent]
    rfl
  | cons c s ih =>
    have other : c ≠ nul := fun same => text (same ▸ List.mem_cons_self)
    have first := fun rest => startsWith_text plain (c :: s) rest
    by_cases occurs : word <+: c :: s
    · rw [decide_eq_true occurs] at first
      obtain ⟨b, split⟩ := occurs
      refine Or.inr ⟨[], b, split.symm, fun rest => ?_, ?_⟩
      · have found := first rest
        rw [List.cons_append] at found ⊢
        rw [strstr, found]
        rfl
      · rw [← split, pass_append some]
        rfl
    · rw [decide_eq_false occurs] at first
      have next : ∀ rest, strstr word (c :: s ++ nul :: rest) = (strstr word (s ++ nul :: rest)).map (·.map (· + 1)) :=
        fun rest => strstr_cons other (first rest)
      rcases ih fun member => text (List.mem_cons_of_mem c member) with ⟨absent, same⟩ | ⟨a, b, split, found, passed⟩
      · refine Or.inl ⟨fun rest => ?_, by rw [pass_cons occurs, same]⟩
        exact (next rest).trans (by rw [absent]; rfl)
      · refine Or.inr ⟨c :: a, b, by rw [split]; rfl, fun rest => ?_, by rw [pass_cons occurs, passed]; rfl⟩
        exact (next rest).trans (by rw [found]; rfl)

theorem strstr_unterminated {word s : List Char} (plain : nul ∉ s) : strstr word s ≠ .ok none := by
  induction s with
  | nil => exact nofun
  | cons c s ih =>
    have other : c ≠ nul := fun same => plain (same ▸ List.mem_cons_self)
    have rest := ih fun member => plain (List.mem_cons_of_mem c member)
    cases first : startsWith word (c :: s) with
    | error fault =>
      rw [strstr, first]
      exact nofun
    | ok found =>
      cases found with
      | true =>
        rw [strstr, first]
        exact nofun
      | false =>
        rw [strstr_cons other first]
        cases later : strstr word s with
        | error fault => exact nofun
        | ok place =>
          cases place with
          | none => exact absurd later rest
          | some k => exact nofun

/-- The rest of a text moves over a part of it, with its terminator. -/
theorem memmove_rest (before w b rest : List Char) :
    memmove (before ++ (w ++ (b ++ nul :: rest))) before.length (before.length + w.length) (b.length + 1) =
      .ok (before ++ (b ++ nul :: ((w ++ (b ++ [nul])).drop (b.length + 1) ++ rest))) := by
  unfold memmove
  rw [if_pos]
  · have moved : ((before ++ (w ++ (b ++ nul :: rest))).drop (before.length + w.length)).take (b.length + 1) =
        b ++ [nul] := by
      rw [← List.drop_drop, List.drop_left, List.drop_left, List.take_append]
      simp
    have behind : (before ++ (w ++ (b ++ nul :: rest))).drop (before.length + (b.length + 1)) =
        (w ++ (b ++ [nul])).drop (b.length + 1) ++ rest := by
      have split : w ++ (b ++ nul :: rest) = w ++ (b ++ [nul]) ++ rest := by simp
      rw [← List.drop_drop, List.drop_left, split, List.drop_append_of_le_length]
      simp only [List.length_append, List.length_cons, List.length_nil]
      omega
    rw [List.take_left, moved, behind]
    simp
  · simp only [List.length_append, List.length_cons]
    omega

/-! ### Words -/

variable {delim : Char}

theorem strspn_text (real : delim ≠ nul) (s rest : List Char) :
    strspn delim (s ++ nul :: rest) = .ok (s.takeWhile (· = delim)).length := by
  induction s with
  | nil =>
    rw [List.nil_append, strspn, if_neg (Ne.symm real)]
    rfl
  | cons c s ih =>
    rw [List.cons_append, strspn, ih]
    by_cases same : c = delim
    · rw [if_pos same, List.takeWhile_cons_of_pos (by simpa using same)]
      rfl
    · rw [if_neg same, List.takeWhile_cons_of_neg (by simpa using same)]
      rfl

theorem strcspn_text {s : List Char} (plain : nul ∉ s) (rest : List Char) :
    strcspn delim (s ++ nul :: rest) = .ok (s.takeWhile (· ≠ delim)).length := by
  induction s with
  | nil =>
    rw [List.nil_append, strcspn, if_pos (Or.inr rfl)]
    rfl
  | cons c s ih =>
    have other : c ≠ nul := fun same => plain (same ▸ List.mem_cons_self)
    rw [List.cons_append, strcspn, ih fun member => plain (List.mem_cons_of_mem c member)]
    by_cases same : c = delim
    · rw [if_pos (Or.inl same), List.takeWhile_cons_of_neg (by simpa using same)]
      rfl
    · rw [if_neg (not_or.mpr ⟨same, other⟩), List.takeWhile_cons_of_pos (by simpa using same)]
      rfl

/-- A delimiter in front changes only where the words lie. -/
theorem words_delim (n p : Nat) (s : List Char) : words delim n p (delim :: s) = words delim n (p + 1) s := by
  cases n with
  | zero => rfl
  | succ n =>
    have start : p + ((s.takeWhile (· = delim)).length + 1) = p + 1 + (s.takeWhile (· = delim)).length := by omega
    unfold words
    rw [List.takeWhile_cons_of_pos (by simp), List.dropWhile_cons_of_pos (by simp), List.length_cons, start]

theorem dropWhile_head {p : Char → Bool} {s rest : List Char} {c : Char} (dropped : s.dropWhile p = c :: rest) :
    p c = false := by
  have head := List.head?_dropWhile_not p s
  rwa [dropped] at head

theorem words_succ (n p : Nat) (s : List Char) : words delim (n + 1) p s =
    if s.dropWhile (· = delim) = [] then []
    else
      (p + (s.takeWhile (· = delim)).length,
        p + (s.takeWhile (· = delim)).length + ((s.dropWhile (· = delim)).takeWhile (· ≠ delim)).length) ::
      words delim n (p + (s.takeWhile (· = delim)).length + ((s.dropWhile (· = delim)).takeWhile (· ≠ delim)).length)
        ((s.dropWhile (· = delim)).dropWhile (· ≠ delim)) := rfl

theorem words_nil {n p : Nat} {s : List Char} (none : s.dropWhile (· = delim) = []) : words delim n p s = [] := by
  cases n with
  | zero => rfl
  | succ n => rw [words_succ, if_pos none]

theorem words_length_le (n p : Nat) (s : List Char) : (words delim n p s).length ≤ n := by
  induction n generalizing p s with
  | zero => exact Nat.le_refl 0
  | succ n ih =>
    rw [words_succ]
    split_ifs
    · exact Nat.zero_le _
    · exact Nat.succ_le_succ (ih _ _)

/-- Behind a word the text goes on, from behind the NUL that may have been put there. -/
theorem strtokEnd_text (real : delim ≠ nul) {front w behind : List Char} (rest : List Char) (some : w ≠ [])
    (head : ∀ c s, behind = c :: s → c = delim) :
    ∃ before' s' rest', (∀ n, words delim n (front.length + w.length) behind = words delim n before'.length s') ∧
      (∀ c ∈ s', c ∈ behind) ∧ front.length ≤ before'.length ∧
      strtokEnd delim (front ++ (w ++ (behind ++ nul :: rest))) front.length (front.length + w.length) =
        (Option.some (front.length, front.length + w.length), before' ++ (s' ++ nul :: rest'), before'.length) := by
  have positive := List.length_pos_iff.mpr some
  have array : front ++ (w ++ (behind ++ nul :: rest)) = front ++ w ++ (behind ++ nul :: rest) :=
    (List.append_assoc ..).symm
  have place : front.length + w.length = (front ++ w).length := List.length_append.symm
  have next : (front ++ w ++ (behind ++ nul :: rest))[(front ++ w).length]? = (behind ++ nul :: rest).head? := by
    rw [List.getElem?_append_right (Nat.le_refl _), Nat.sub_self, List.head?_eq_getElem?]
  unfold strtokEnd
  rw [if_neg (by omega), array, place, next]
  cases behind with
  | nil =>
    refine ⟨front ++ w, [], rest, fun n => rfl, fun c member => member, by rw [List.length_append]; omega, ?_⟩
    rw [if_neg (by simpa using Ne.symm real)]
  | cons c s =>
    obtain rfl := head c s rfl
    refine ⟨front ++ (w ++ [nul]), s, rest, fun n => ?_, fun d member => List.mem_cons_of_mem c member, ?_, ?_⟩
    · rw [words_delim]
      simp only [List.length_append, List.length_cons, List.length_nil, Nat.add_assoc]
    · rw [List.length_append]
      omega
    · rw [if_pos (by rfl), List.set_append_right _ _ (Nat.le_refl _), Nat.sub_self]
      simp [Nat.add_assoc]

/-- A call of `strtok` finds the first word and leaves the array as a text again, behind that word. -/
theorem strtok_text (real : delim ≠ nul) {s : List Char} (plain : nul ∉ s) (before rest : List Char) :
    ((∀ n, words delim n before.length s = []) ∧
      ∃ array next, strtok delim (before ++ (s ++ nul :: rest)) before.length = .ok (none, array, next)) ∨
    ∃ start stop before' s' rest', nul ∉ s' ∧ start ≤ before'.length ∧
      (∀ n, words delim (n + 1) before.length s = (start, stop) :: words delim n before'.length s') ∧
      strtok delim (before ++ (s ++ nul :: rest)) before.length =
        .ok (some (start, stop), before' ++ (s' ++ nul :: rest'), before'.length) := by
  have split := List.takeWhile_append_dropWhile (p := fun c => decide (c = delim)) (l := s)
  have parts := List.takeWhile_append_dropWhile (p := fun c => decide (c ≠ delim)) (l := s.dropWhile (· = delim))
  have spaces := strspn_text real s rest
  have unfolded := fun n => @words_succ delim n before.length s
  have first : ∀ c r, s.dropWhile (· = delim) = c :: r → c ≠ delim := by
    intro c r dropped
    simpa using dropWhile_head dropped
  have last : ∀ c r, (s.dropWhile (· = delim)).dropWhile (· ≠ delim) = c :: r → c = delim := by
    intro c r dropped
    simpa using dropWhile_head dropped
  have found := @strcspn_text delim (s.dropWhile (· = delim))
    (fun member => plain (split ▸ List.mem_append_right _ member)) rest
  generalize s.takeWhile (· = delim) = sp at *
  generalize s.dropWhile (· = delim) = r at *
  generalize wordIs : r.takeWhile (· ≠ delim) = w at *
  generalize r.dropWhile (· ≠ delim) = behind at *
  have array : before ++ (s ++ nul :: rest) = before ++ sp ++ (r ++ nul :: rest) := by
    rw [← split]
    simp only [List.append_assoc]
  have place : before.length + sp.length = (before ++ sp).length := List.length_append.symm
  have run : strtok delim (before ++ (s ++ nul :: rest)) before.length =
      .ok (strtokEnd delim (before ++ (s ++ nul :: rest)) (before ++ sp).length ((before ++ sp).length + w.length)) := by
    unfold strtok
    rw [List.drop_left, spaces]
    show (strcspn delim ((before ++ (s ++ nul :: rest)).drop (before.length + sp.length)) >>= fun n => _) = _
    rw [place, array, List.drop_left, found]
    rfl
  rw [run]
  by_cases none : r = []
  · refine Or.inl ⟨fun n => ?_, before ++ (s ++ nul :: rest), (before ++ sp).length, ?_⟩
    · cases n with
      | zero => rfl
      | succ n => rw [unfolded, if_pos none]
    · subst none
      subst wordIs
      rw [List.takeWhile_nil, List.length_nil, Nat.add_zero, strtokEnd, if_pos rfl]
  · have some : w ≠ [] := by
      obtain ⟨c, r', rfl⟩ := List.exists_cons_of_ne_nil none
      rw [← wordIs, List.takeWhile_cons_of_pos (by simpa using first c r' rfl)]
      exact List.cons_ne_nil _ _
    obtain ⟨before', s', rest', same, kept, le, ended⟩ := @strtokEnd_text delim real (before ++ sp) w behind rest some last
    refine Or.inr ⟨(before ++ sp).length, (before ++ sp).length + w.length, before', s', rest',
      fun member => plain ?_, le, fun n => ?_, ?_⟩
    · rw [← split, ← parts]
      exact List.mem_append_right _ (List.mem_append_right _ (kept nul member))
    · rw [unfolded, if_neg none, place, same]
    · rw [array, ← parts, List.append_assoc w, ended]

end CArray
