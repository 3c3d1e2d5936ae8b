import OsLab.Projects.ClientArguments
import Mathlib.Data.List.Flatten
import Mathlib.Data.List.Induction
import Mathlib.Data.List.Nodup

/-!
# Arrangements

What the loops see of an arrangement, and which arguments are one.
-/

namespace OsLab.Projects
/-! ### What a loop sees of an arrangement -/

/-- The value begins with what is compared of `--debug`. -/
def Choice.cut (c : Choice) : Bool := c.value.any fun value => decide (debugStart <+: value)

theorem look_other {value : List Char} (plain : PlainValue value) (next : Option (List Char)) : look value next = .other := by
  have differ : ∀ {word}, ¬ word <+: value → value ≠ word := fun fails same => fails (same ▸ List.prefix_refl _)
  rw [look, if_neg (differ plain.1), if_neg (differ plain.2.1), if_neg (differ plain.2.2)]

theorem lookValue_plain {make : List Char → Choice} {other value : List Char} (fine : ¬ other <+: value)
    (valued : ∀ value, (make value).value = some value) :
    lookValue make other (some value) = if (make value).cut then .bad else .choice (make value) := by
  unfold lookValue Choice.cut
  rw [valued]
  by_cases starts : debugStart <+: value
  · simp [starts]
  · simp [starts, fine]

theorem looks_words {choices : List Choice} (plain : ∀ c ∈ choices, ∀ value, c.value = some value → PlainValue value) :
    looks (choices.flatMap Choice.words) =
      choices.flatMap fun c => (if c.cut then .bad else .choice c) :: c.value.toList.map fun _ => .other := by
  induction choices with
  | nil => rfl
  | cons c choices ih =>
    have rest := ih fun c member => plain c (List.mem_cons_of_mem _ member)
    have first := plain c List.mem_cons_self
    rw [List.flatMap_cons, List.flatMap_cons, ← rest]
    cases c with
    | host value =>
      have fine := first value rfl
      show look hostWord (some value) :: look value _ :: looks _ = _
      rw [look_other fine, look, if_pos rfl, lookValue_plain fine.2.1 fun _ => rfl]
      rfl
    | port value =>
      have fine := first value rfl
      show look portWord (some value) :: look value _ :: looks _ = _
      rw [look_other fine, look, if_neg (by decide), if_pos rfl, lookValue_plain fine.1 fun _ => rfl]
      rfl
    | debug => rfl

/-- The options that are taken when a loop knows them. -/
def chosen (args : List (List Char)) : List Choice := (looks args).filterMap Seen.choice?

theorem bad_words {choices : List Choice} {args : List (List Char)} (arranged : Arranges choices args) :
    .bad ∈ looks args ↔ ∃ c ∈ choices, c.cut := by
  rw [arranged.words, looks_words arranged.plain, List.mem_flatMap]
  refine exists_congr fun c => and_congr_right fun _ => ?_
  cases c.cut <;> simp

theorem chosen_words {choices : List Choice} {args : List (List Char)} (arranged : Arranges choices args) :
    chosen args = choices.filter fun c => !c.cut := by
  rw [chosen, arranged.words, looks_words arranged.plain]
  clear arranged
  induction choices with
  | nil => rfl
  | cons c choices ih =>
    have others : ∀ values : List (List Char), (values.map fun _ => Seen.other).filterMap Seen.choice? = [] := by
      intro values
      rw [List.filterMap_map]
      exact List.filterMap_eq_nil_iff.mpr fun _ _ => rfl
    rw [List.flatMap_cons, List.cons_append, List.filterMap_cons, List.filterMap_append, others, List.nil_append, ih]
    cases cut : c.cut <;> simp [Seen.choice?, cut]

/-! ### Lengths -/

theorem length_words (choices : List Choice) :
    (choices.flatMap Choice.words).length = choices.length + choices.countP (·.value.isSome) := by
  induction choices with
  | nil => rfl
  | cons c choices ih =>
    rw [List.flatMap_cons, List.length_append, ih, List.length_cons, List.countP_cons]
    cases c <;> simp [Choice.words, Choice.value] <;> omega

theorem valued_word (c : Choice) : (if c.value.isSome then 1 else 0) =
    (if c.word == hostWord then 1 else 0) + if c.word == portWord then 1 else 0 := by
  cases c <;> rfl

theorem debug_word (c : Choice) : 1 = (if c.value.isSome then 1 else 0) + if c.word == debugWord then 1 else 0 := by
  cases c <;> rfl

theorem valued_words (choices : List Choice) :
    choices.countP (·.value.isSome) = (choices.map Choice.word).count hostWord + (choices.map Choice.word).count portWord := by
  induction choices with
  | nil => rfl
  | cons c choices ih =>
    rw [List.countP_cons, ih, List.map_cons, List.count_cons, List.count_cons, valued_word]
    omega

theorem debug_words (choices : List Choice) :
    choices.length = choices.countP (·.value.isSome) + (choices.map Choice.word).count debugWord := by
  induction choices with
  | nil => rfl
  | cons c choices ih =>
    have one := debug_word c
    rw [List.length_cons, ih, List.countP_cons, List.map_cons, List.count_cons]
    omega

/-- At most two of the options have values, and at most one has none. -/
theorem once_bounds {choices : List Choice} (once : (choices.map Choice.word).Nodup) :
    choices.countP (·.value.isSome) ≤ 2 ∧ choices.length ≤ choices.countP (·.value.isSome) + 1 := by
  have most := List.nodup_iff_count_le_one.mp once
  have hosts := most hostWord
  have ports := most portWord
  have debugs := most debugWord
  have valued := valued_words choices
  have all := debug_words choices
  constructor <;> omega

/-! ### Arguments that are arrangements -/

/-- A value begins with its own option's word. -/
def OwnValue (args : List (List Char)) : Prop :=
  ∃ word value, (word = hostWord ∨ word = portWord) ∧ word <+: value ∧ [word, value] <:+: args

/-- An option's word stands twice. -/
def Repeated (args : List (List Char)) : Prop := ∃ c : Choice, 1 < args.count c.word

theorem words_differ : hostWord ≠ portWord ∧ hostWord ≠ debugWord ∧ portWord ≠ debugWord := by decide

theorem words_injective {choices others : List Choice} (same : choices.flatMap Choice.words = others.flatMap Choice.words) :
    choices = others := by
  induction choices generalizing others with
  | nil =>
    cases others with
    | nil => rfl
    | cons c others => cases same
  | cons c choices ih =>
    cases others with
    | nil => cases same
    | cons d others =>
      rw [List.flatMap_cons, List.flatMap_cons] at same
      cases c <;> cases d <;> injection same with word rest
      case host.host value other =>
        injection rest with value rest
        rw [value, ih rest]
      case port.port value other =>
        injection rest with value rest
        rw [value, ih rest]
      case debug.debug => rw [ih rest]
      case host.port => exact absurd word words_differ.1
      case host.debug => exact absurd word words_differ.2.1
      case port.host => exact absurd word.symm words_differ.1
      case port.debug => exact absurd word words_differ.2.2
      case debug.host => exact absurd word.symm words_differ.2.1
      case debug.port => exact absurd word.symm words_differ.2.2

theorem plain_starts {value : List Char} (plain : PlainValue value) (c : Choice) : ¬ c.word <+: value := by
  cases c with
  | host _ => exact plain.1
  | port _ => exact plain.2.1
  | debug => exact plain.2.2

theorem plain_word {value : List Char} (plain : PlainValue value) (c : Choice) : value ≠ c.word :=
  fun same => plain_starts plain c (same ▸ List.prefix_refl _)

theorem count_words {choices : List Choice} (plain : ∀ c ∈ choices, ∀ value, c.value = some value → PlainValue value)
    (d : Choice) : (choices.flatMap Choice.words).count d.word = (choices.map Choice.word).count d.word := by
  induction choices with
  | nil => rfl
  | cons c choices ih =>
    have values : c.value.toList.count d.word = 0 := by
      refine List.count_eq_zero.mpr fun member => ?_
      exact plain_word (plain c List.mem_cons_self _ (Option.mem_toList.mp member)) d rfl
    rw [List.flatMap_cons, List.count_append, ih fun c member => plain c (List.mem_cons_of_mem _ member), List.map_cons,
      Choice.words, List.count_cons, List.count_cons, values]
    omega

theorem arrangement_once {choices : List Choice} {args : List (List Char)} (arranged : Arranges choices args) :
    ¬ Repeated args := by
  rintro ⟨c, twice⟩
  rw [arranged.words, count_words arranged.plain] at twice
  exact Nat.not_lt.mpr (List.nodup_iff_count_le_one.mp arranged.once c.word) twice

theorem arrangement_values {choices : List Choice} {args : List (List Char)} (arranged : Arranges choices args) :
    ¬ OwnValue args := by
  rintro ⟨word, value, valued, starts, inside⟩
  have plain := arranged.plain
  rw [arranged.words] at inside
  clear arranged
  have differs : ∀ {value}, PlainValue value → value ≠ word := by
    intro value plain
    rcases valued with rfl | rfl
    · exact plain_word plain (.host [])
    · exact plain_word plain (.port [])
  induction choices with
  | nil => exact absurd (List.infix_nil.mp inside) (List.cons_ne_nil _ _)
  | cons c choices ih =>
    have rest := fun inside => ih inside fun c member => plain c (List.mem_cons_of_mem _ member)
    rw [List.flatMap_cons, Choice.words, List.cons_append, List.infix_cons_iff] at inside
    cases chosen : c.value with
    | none =>
      rw [chosen] at inside
      rcases inside with here | later
      · cases c with
        | debug => 
          have same := (List.cons_prefix_cons.mp here).1
          rcases valued with rfl | rfl <;> exact absurd same (by decide)
        | host value => cases chosen
        | port value => cases chosen
      · exact rest later
    | some given =>
      rw [chosen] at inside
      have fine := plain c List.mem_cons_self given chosen
      rcases inside with here | later
      · obtain ⟨same, here⟩ := List.cons_prefix_cons.mp here
        have given_eq := (List.cons_prefix_cons.mp here).1
        subst same given_eq
        exact plain_starts fine c starts
      · rcases List.infix_cons_iff.mp later with here | later
        · exact differs fine (List.cons_prefix_cons.mp here).1.symm
        · exact rest later

theorem lookValue_choice {make : List Char → Choice} {other : List Char} {next : Option (List Char)} {c : Choice}
    (seen : lookValue make other next = .choice c) :
    ∃ value, next = some value ∧ c = make value ∧ ¬ other <+: value ∧ ¬ debugStart <+: value := by
  unfold lookValue at seen
  cases next with
  | none => cases seen
  | some value =>
    simp only at seen
    split_ifs at seen with good
    exact ⟨value, rfl, (Seen.choice.inj seen).symm, good⟩

theorem look_choice {arg : List Char} {next : Option (List Char)} {c : Choice} (seen : look arg next = .choice c) :
    c.word = arg ∧ ∀ value, c.value = some value →
      next = some value ∧ ¬ debugStart <+: value ∧ ∀ d : Choice, d.word <+: value → d.word = c.word := by
  have debugs : debugStart <+: debugWord := by decide
  unfold look at seen
  split_ifs at seen with host port debug
  · obtain ⟨value, found, rfl, port, start⟩ := lookValue_choice seen
    refine ⟨host.symm, fun other same => ?_⟩
    cases same
    refine ⟨found, start, fun d starts => ?_⟩
    cases d with
    | host _ => rfl
    | port _ => exact absurd starts port
    | debug => exact absurd (debugs.trans starts) start
  · obtain ⟨value, found, rfl, host, start⟩ := lookValue_choice seen
    refine ⟨port.symm, fun other same => ?_⟩
    cases same
    refine ⟨found, start, fun d starts => ?_⟩
    cases d with
    | host _ => exact absurd starts host
    | port _ => rfl
    | debug => exact absurd (debugs.trans starts) start
  · cases seen
    exact ⟨debug.symm, fun _ same => nomatch same⟩

theorem chosen_cons (arg : List Char) (rest : List (List Char)) :
    chosen (arg :: rest) = (look arg rest.head?).choice?.toList ++ chosen rest := by
  rw [chosen, looks, List.filterMap_cons]
  cases look arg rest.head? <;> rfl

theorem chosen_word_sublist (args : List (List Char)) : ((chosen args).map Choice.word).Sublist args := by
  induction args with
  | nil => exact List.Sublist.refl _
  | cons arg rest ih =>
    rw [chosen_cons]
    cases seen : look arg rest.head? with
    | choice c =>
      show (c.word :: (chosen rest).map Choice.word).Sublist _
      rw [(look_choice seen).1]
      exact ih.cons_cons arg
    | bad => exact ih.cons arg
    | other => exact ih.cons arg

theorem ownValue_cons {arg : List Char} {rest : List (List Char)} (plain : ¬ OwnValue (arg :: rest)) : ¬ OwnValue rest :=
  fun ⟨word, value, valued, starts, inside⟩ => plain ⟨word, value, valued, starts, List.infix_cons inside⟩

/-- What is seen of an option with a value that does not begin with the option's word. -/
theorem look_plain {arg value : List Char} {rest : List (List Char)} {c : Choice} (plain : ¬ OwnValue (arg :: rest))
    (seen : look arg rest.head? = .choice c) (chosen : c.value = some value) :
    rest.head? = some value ∧ PlainValue value := by
  obtain ⟨word, values⟩ := look_choice seen
  obtain ⟨next, start, others⟩ := values value chosen
  have own : ¬ c.word <+: value := by
    intro starts
    obtain ⟨after, rfl⟩ := List.head?_eq_some_iff.mp next
    refine plain ⟨c.word, value, ?_, starts, ?_⟩
    · cases c with
      | host _ => exact .inl rfl
      | port _ => exact .inr rfl
      | debug => cases chosen
    · rw [word]
      exact ⟨[], after, rfl⟩
  have all : ∀ d : Choice, ¬ d.word <+: value := fun d starts => own (others d starts ▸ starts)
  exact ⟨next, all (.host []), all (.port []), all .debug⟩

theorem chosen_plain {args : List (List Char)} (plain : ¬ OwnValue args) :
    ∀ c ∈ chosen args, ∀ value, c.value = some value → PlainValue value := by
  induction args with
  | nil => exact fun c member => nomatch member
  | cons arg rest ih =>
    intro c member value valued
    rw [chosen_cons] at member
    rcases List.mem_append.mp member with here | later
    · cases seen : look arg rest.head? with
      | choice d =>
        rw [seen] at here
        cases List.mem_singleton.mp here
        exact (look_plain plain seen valued).2
      | bad => rw [seen] at here; cases here
      | other => rw [seen] at here; cases here
    · exact ih (ownValue_cons plain) c later value valued

theorem chosen_skip {value : List Char} (plain : PlainValue value) (rest : List (List Char)) :
    chosen (value :: rest) = chosen rest := by
  rw [chosen_cons, look_other plain]
  rfl

/-- The options that are taken stand in the arguments with their values, one after another. -/
theorem chosen_sublist {args : List (List Char)} (plain : ¬ OwnValue args) :
    ((chosen args).flatMap Choice.words).Sublist args := by
  -- a value is skipped together with its option
  induction args using List.twoStepInduction with
  | nil => exact List.Sublist.refl _
  | singleton arg =>
    rw [chosen_cons]
    cases seen : look arg ([] : List (List Char)).head? with
    | bad => exact List.nil_sublist _
    | other => exact List.nil_sublist _
    | choice c =>
      cases valued : c.value with
      | some value => exact nomatch (look_plain plain seen valued).1
      | none =>
        rw [← (look_choice seen).1]
        show (Choice.words c ++ []).Sublist _
        rw [Choice.words, valued]
        exact List.Sublist.refl _
  | cons_cons arg next rest skip ih =>
    have step := ih next (ownValue_cons plain)
    rw [chosen_cons]
    cases seen : look arg (next :: rest).head? with
    | bad => exact step.cons arg
    | other => exact step.cons arg
    | choice c =>
      rw [← (look_choice seen).1]
      show (Choice.words c ++ (chosen (next :: rest)).flatMap Choice.words).Sublist _
      rw [Choice.words]
      cases valued : c.value with
      | none => exact step.cons_cons c.word
      | some value =>
        obtain ⟨found, fine⟩ := look_plain plain seen valued
        cases found
        rw [chosen_skip fine]
        exact ((skip (ownValue_cons (ownValue_cons plain))).cons_cons next).cons_cons c.word

end OsLab.Projects
