import Mathlib.Data.List.Infix
import Mathlib.Logic.Relation

/-!
# Substrings

A word is deleted from a text in one pass from left to right, which goes on behind each occurrence
and does not look back. What the pass leaves, and when the word occurs in it again.
-/

namespace Substrings

variable {α : Type*}

/-- One occurrence of the word is deleted. -/
inductive Deletes (w : List α) : List α → List α → Prop
  | intro (a b : List α) : Deletes w (a ++ w ++ b) (a ++ b)

theorem deletes_sublist {w s r : List α} (deletes : Relation.ReflTransGen (Deletes w) s r) : r.Sublist s := by
  induction deletes with
  | refl => exact List.Sublist.refl _
  | tail _ one ih =>
    obtain ⟨a, b⟩ := one
    refine List.Sublist.trans ?_ ih
    exact (List.sublist_append_left a w).append (List.Sublist.refl b)

/-- No shorter word is both a beginning and an end of this one. -/
def Unbordered (w : List α) : Prop := ∀ x, x ≠ [] → x <+: w → x <:+ w → x = w

/-- The text yields `v` when some whole occurrences of the word are left out of it. -/
inductive Completes (w : List α) : List α → List α → Prop
  | done (b : List α) : Completes w [] b
  | skip {v b : List α} : Completes w v b → Completes w v (w ++ b)
  | take {v b : List α} (c : α) : Completes w v b → Completes w (c :: v) (c :: b)

/-- Behind an occurrence and in front of it stand the two parts of another. -/
def Nested (w s : List α) : Prop :=
  ∃ a u v b, w = u ++ v ∧ u ≠ [] ∧ v ≠ [] ∧ s = a ++ u ++ w ++ b ∧ Completes w v b

theorem Nested.append {w s : List α} (nested : Nested w s) (a : List α) : Nested w (a ++ s) := by
  obtain ⟨a', u, v, b, split, some, rest, rfl, completes⟩ := nested
  exact ⟨a ++ a', u, v, b, split, some, rest, by simp only [List.append_assoc], completes⟩

/-- Parts of an occurrence that reach into another one. -/
theorem Unbordered.no_overlap {w : List α} (unbordered : Unbordered w) {x b : List α} (some : x ≠ [])
    (short : x.length < w.length) (ends : x <:+ w) : ¬ x <+: w ++ b := by
  intro starts
  have begins : x <+: w := List.prefix_of_prefix_length_le starts (List.prefix_append w b) (Nat.le_of_lt short)
  exact absurd (congrArg List.length (unbordered x some begins ends)) (Nat.ne_of_lt short)

/-- No occurrence begins less than a word before another. -/
theorem Unbordered.apart {w : List α} (unbordered : Unbordered w) {x b : List α} (some : x ≠ [])
    (short : x.length < w.length) : ¬ w <+: x ++ (w ++ b) := by
  intro starts
  have begins : x <+: w :=
    List.prefix_of_prefix_length_le (List.prefix_append x _) starts (Nat.le_of_lt short)
  obtain ⟨p, rfl⟩ := begins
  have rest : p <+: x ++ p ++ b := (List.prefix_append_right_inj x).mp starts
  have positive : 0 < x.length := List.length_pos_iff.mpr some
  rw [List.length_append] at short
  exact unbordered.no_overlap (List.length_pos_iff.mp (by omega)) (by rw [List.length_append]; omega)
    (List.suffix_append x p) rest

/-- No occurrence reaches into a part of one that stands in front of another. -/
theorem Unbordered.no_reach {w : List α} (unbordered : Unbordered w) {a u b : List α} (some : a ≠ [])
    (short : a.length < w.length) (part : u <+: w) : ¬ w <+: a ++ (u ++ (w ++ b)) := by
  intro starts
  obtain ⟨p, rfl⟩ := List.prefix_of_prefix_length_le (List.prefix_append a _) starts (Nat.le_of_lt short)
  have rest : p <+: u ++ (a ++ p ++ b) := (List.prefix_append_right_inj a).mp starts
  have positive : 0 < a.length := List.length_pos_iff.mpr some
  rw [List.length_append] at short
  have nonempty : p ≠ [] := List.length_pos_iff.mp (by omega)
  rcases Nat.lt_or_ge u.length p.length with more | less
  · obtain ⟨q, rfl⟩ := List.prefix_of_prefix_length_le (List.prefix_append u _) rest (Nat.le_of_lt more)
    have behind : q <+: a ++ (u ++ q) ++ b := (List.prefix_append_right_inj u).mp rest
    rw [List.length_append] at more
    refine unbordered.no_overlap (List.length_pos_iff.mp (by omega)) ?_ ?_ behind
    · simp only [List.length_append]
      omega
    · exact (List.suffix_append u q).trans (List.suffix_append a _)
  · have begins := (List.prefix_of_prefix_length_le rest (List.prefix_append u _) less).trans part
    have same := congrArg List.length (unbordered p nonempty begins (List.suffix_append a p))
    rw [List.length_append] at same
    omega

/-- Inside an occurrence no other one begins. -/
theorem Completes.inside {w : List α} (unbordered : Unbordered w) {x v b : List α} (ends : x <:+ w)
    (short : x.length < w.length) (completes : Completes w v (x ++ b)) : v <+: x ∨ x <+: v := by
  induction x generalizing v with
  | nil => exact Or.inr List.nil_prefix
  | cons d x ih =>
    generalize text : d :: x ++ b = t at completes
    cases completes with
    | done => exact Or.inl List.nil_prefix
    | @skip v b' =>
      have starts : d :: x <+: w ++ b' := text ▸ List.prefix_append (d :: x) b
      exact absurd starts (unbordered.no_overlap (List.cons_ne_nil d x) short ends)
    | @take v rest c completes =>
      obtain ⟨rfl, rfl⟩ := List.cons.inj text
      rcases ih ((List.suffix_cons d x).trans ends) (Nat.lt_of_succ_lt short) completes with shorter | longer
      · exact Or.inl (List.cons_prefix_cons.mpr ⟨rfl, shorter⟩)
      · exact Or.inr (List.cons_prefix_cons.mpr ⟨rfl, longer⟩)

/-- A letter of another occurrence is taken only where none begins. -/
theorem Completes.take_other {w : List α} (unbordered : Unbordered w) {c : α} {v b : List α} (ends : c :: v <:+ w)
    (short : (c :: v).length < w.length) (completes : Completes w v b) : ¬ w <+: c :: b := by
  intro starts
  obtain ⟨rest, whole⟩ := starts
  cases w with
  | nil => cases short
  | cons d x =>
    obtain ⟨rfl, rfl⟩ := List.cons.inj whole
    have fits : d :: v <+: d :: x := by
      rcases completes.inside unbordered (List.suffix_cons d x) (Nat.lt_succ_self _) with shorter | longer
      · exact List.cons_prefix_cons.mpr ⟨rfl, shorter⟩
      · have le := longer.length_le
        have less : v.length < x.length := Nat.lt_of_succ_lt_succ short
        omega
    exact absurd (congrArg List.length (unbordered _ (List.cons_ne_nil d v) fits ends)) (Nat.ne_of_lt short)

/-! ### The pass -/

theorem drop_shorter {w s : List α} (some : w ≠ []) (starts : w <+: s) : (s.drop w.length).length < s.length := by
  have le := starts.length_le
  have positive := List.length_pos_iff.mpr some
  rw [List.length_drop]
  omega

variable [DecidableEq α]

def pass (w s : List α) : List α :=
  if starts : w ≠ [] ∧ w <+: s then
    have _shorter := drop_shorter starts.1 starts.2
    pass w (s.drop w.length)
  else match s with
    | [] => []
    | c :: s => c :: pass w s
termination_by s.length
decreasing_by
  · exact _shorter
  · exact Nat.lt_succ_self _

theorem pass_nil (w : List α) : pass w [] = [] := by
  rw [pass]
  split_ifs with starts
  · exact absurd (List.prefix_nil.mp starts.2) starts.1
  · rfl

theorem pass_append {w : List α} (some : w ≠ []) (b : List α) : pass w (w ++ b) = pass w b := by
  rw [pass, dif_pos ⟨some, List.prefix_append w b⟩]
  show pass w ((w ++ b).drop w.length) = pass w b
  rw [List.drop_left]

theorem pass_cons {w : List α} {c : α} {s : List α} (other : ¬ w <+: c :: s) : pass w (c :: s) = c :: pass w s := by
  rw [pass, dif_neg fun starts => other starts.2]

/-- The cases of the pass. -/
theorem pass_induction {w : List α} (some : w ≠ []) {P : List α → Prop} (nil : P [])
    (found : ∀ b, P b → P (w ++ b)) (other : ∀ c s, ¬ w <+: c :: s → P s → P (c :: s)) (s : List α) : P s := by
  induction length : s.length using Nat.strong_induction_on generalizing s with
  | _ n ih =>
    by_cases starts : w <+: s
    · obtain ⟨b, rfl⟩ := starts
      have positive := List.length_pos_iff.mpr some
      rw [List.length_append] at length
      exact found b (ih b.length (by omega) b rfl)
    · cases s with
      | nil => exact nil
      | cons c s =>
        rw [List.length_cons] at length
        exact other c s starts (ih s.length (by omega) s rfl)

/-- The pass deletes occurrences and nothing else. -/
theorem pass_deletes {w : List α} (some : w ≠ []) (s : List α) : Relation.ReflTransGen (Deletes w) s (pass w s) := by
  induction s using pass_induction some with
  | nil =>
    rw [pass_nil]
  | found b ih =>
    rw [pass_append some]
    exact .head (Deletes.intro [] b) ih
  | other c s other ih =>
    rw [pass_cons other]
    refine ih.lift (c :: ·) fun x y deletes => ?_
    obtain ⟨a, b⟩ := deletes
    exact Deletes.intro (c :: a) b

/-! ### Occurrences that the pass makes -/

/-- What the pass leaves begins with the words that the text yields. -/
theorem completes_iff {w : List α} (unbordered : Unbordered w) {v b : List α} (ends : v <:+ w)
    (short : v.length < w.length) : Completes w v b ↔ v <+: pass w b := by
  have some : w ≠ [] := List.length_pos_iff.mp (Nat.lt_of_le_of_lt (Nat.zero_le _) short)
  constructor
  · intro completes
    induction completes with
    | done => exact List.nil_prefix
    | skip completes ih =>
      rw [pass_append some]
      exact ih ends short
    | @take v b c completes ih =>
      rw [pass_cons (completes.take_other unbordered ends short), List.cons_prefix_cons]
      exact ⟨rfl, ih ((List.suffix_cons c v).trans ends) (Nat.lt_of_succ_lt short)⟩
  · intro starts
    clear ends short
    induction b using pass_induction some generalizing v with
    | nil =>
      rw [pass_nil, List.prefix_nil] at starts
      rw [starts]
      exact .done []
    | found b ih =>
      rw [pass_append some] at starts
      exact .skip (ih starts)
    | other c b other ih =>
      rw [pass_cons other] at starts
      cases v with
      | nil => exact .done _
      | cons d v =>
        obtain ⟨rfl, behind⟩ := List.cons_prefix_cons.mp starts
        exact .take d (ih behind)

/-! ### When the word occurs again -/

theorem pass_short {w : List α} (unbordered : Unbordered w) (some : w ≠ []) {u : List α} (short : u.length < w.length)
    (b : List α) : pass w (u ++ (w ++ b)) = u ++ pass w b := by
  induction u with
  | nil => exact pass_append some b
  | cons c u ih =>
    have apart : ¬ w <+: c :: (u ++ (w ++ b)) := unbordered.apart (List.cons_ne_nil c u) short
    rw [List.cons_append, pass_cons apart, ih (Nat.lt_of_succ_lt short)]
    rfl

/-- Part of an occurrence in front of another is left, whatever comes before it. -/
theorem pass_leaves {w u : List α} (unbordered : Unbordered w) (part : u <+: w) (short : u.length < w.length)
    (a b : List α) :
    ∃ before, pass w (a ++ (u ++ (w ++ b))) = before ++ (u ++ pass w b) := by
  have nonempty : w ≠ [] := List.length_pos_iff.mp (Nat.lt_of_le_of_lt (Nat.zero_le _) short)
  induction length : a.length using Nat.strong_induction_on generalizing a with
  | _ n ih =>
    cases a with
    | nil => exact ⟨[], pass_short unbordered nonempty short b⟩
    | cons c a =>
      by_cases occurs : w <+: c :: (a ++ (u ++ (w ++ b)))
      · rcases Nat.lt_or_ge (c :: a).length w.length with less | more
        · exact absurd occurs (unbordered.no_reach (List.cons_ne_nil c a) less part)
        · have inside := List.prefix_of_prefix_length_le occurs (List.prefix_append (c :: a) _) more
          obtain ⟨a', split⟩ := inside
          have positive := List.length_pos_iff.mpr nonempty
          rw [← split, List.length_append] at length
          obtain ⟨before, rest⟩ := ih a'.length (by omega) a' rfl
          exact ⟨before, by rw [← split, List.append_assoc, pass_append nonempty, rest]⟩
      · obtain ⟨before, rest⟩ := ih a.length (by rw [← length]; exact Nat.lt_succ_self _) a rfl
        exact ⟨c :: before, by rw [List.cons_append, pass_cons occurs, rest]; rfl⟩

/-- Letters that complete an occurrence behind the pass. -/
theorem nested_of_prefix {w : List α} (nonempty : w ≠ []) {u v b : List α} (split : w = u ++ v) (some : u ≠ [])
    (rest : v ≠ []) (starts : v <+: pass w b) (other : ¬ w <+: u ++ b) :
    ∃ u' v' b', w = u' ++ v' ∧ u' ≠ [] ∧ v' ≠ [] ∧ u ++ b = u' ++ (w ++ b') ∧ v' <+: pass w b' := by
  induction v generalizing u b with
  | nil => exact absurd rfl rest
  | cons d v ih =>
    by_cases occurs : w <+: b
    · obtain ⟨b', rfl⟩ := occurs
      rw [pass_append nonempty] at starts
      exact ⟨u, d :: v, b', split, some, rest, rfl, starts⟩
    · cases b with
      | nil =>
        rw [pass_nil] at starts
        exact absurd (List.prefix_nil.mp starts) rest
      | cons c b =>
        rw [pass_cons occurs] at starts
        obtain ⟨rfl, behind⟩ := List.cons_prefix_cons.mp starts
        have move : u ++ d :: b = u ++ [d] ++ b := by rw [List.append_assoc]; rfl
        rw [move] at other ⊢
        refine ih (by rw [split, List.append_assoc]; rfl) (List.append_ne_nil_of_right_ne_nil u (List.cons_ne_nil d [])) ?_
          behind other
        intro none
        subst none
        exact other (split ▸ List.prefix_append _ b)

theorem occurs_iff_nested {w : List α} (unbordered : Unbordered w) (nonempty : w ≠ []) (s : List α) :
    w <:+: pass w s ↔ Nested w s := by
  constructor
  · intro occurs
    induction s using pass_induction nonempty with
    | nil =>
      rw [pass_nil] at occurs
      exact absurd (List.infix_nil.mp occurs) nonempty
    | found b ih =>
      rw [pass_append nonempty] at occurs
      exact (ih occurs).append w
    | other c s other ih =>
      rw [pass_cons other] at occurs
      rcases List.infix_cons_iff.mp occurs with starts | behind
      · obtain ⟨d, v, split⟩ := List.exists_cons_of_ne_nil nonempty
        obtain ⟨rfl, yields⟩ := List.cons_prefix_cons.mp (split ▸ starts)
        have more : v ≠ [] := by
          intro none
          subst none
          exact other (split ▸ List.cons_prefix_cons.mpr ⟨rfl, List.nil_prefix⟩)
        have yields : v <+: pass w s := split ▸ yields
        obtain ⟨u, v', b, parts, some, rest, text, begins⟩ :=
          nested_of_prefix nonempty split (List.cons_ne_nil d []) more yields other
        have ends : v' <:+ w := parts ▸ List.suffix_append u v'
        have positive := List.length_pos_iff.mpr some
        have short : v'.length < w.length := by
          rw [parts, List.length_append]
          omega
        exact ⟨[], u, v', b, parts, some, rest, by rw [List.nil_append, List.append_assoc]; exact text,
          (completes_iff unbordered ends short).mpr begins⟩
      · exact (ih behind).append [c]
  · intro nested
    obtain ⟨a, u, v, b, split, some, rest, rfl, completes⟩ := nested
    have positive := List.length_pos_iff.mpr some
    have positive' := List.length_pos_iff.mpr rest
    have length : w.length = u.length + v.length := by rw [split, List.length_append]
    have part : u <+: w := split ▸ List.prefix_append u v
    have ends : v <:+ w := split ▸ List.suffix_append u v
    obtain ⟨before, left⟩ := pass_leaves unbordered part (by omega) a b
    obtain ⟨after, yields⟩ := (completes_iff unbordered ends (by omega)).mp completes
    have rejoined : w ++ after = u ++ pass w b := by
      rw [← yields, ← List.append_assoc, ← split]
    exact ⟨before, after, by rw [List.append_assoc, rejoined, ← left, List.append_assoc, List.append_assoc]⟩

end Substrings
