import OsLab.Projects.ClientArrangements

/-!
# Option words

The loops decide by counts: how many option words stand in the vector, and how many of them take the
word behind them for their value.
-/

namespace OsLab.Projects

/-- `--host` and `--port` take no value that begins with the other one's name or with `--debu`. -/
def takesValue (word value : List Char) : Bool :=
  decide ((word = hostWord ∧ ¬ portWord <+: value ∨ word = portWord ∧ ¬ hostWord <+: value) ∧ ¬ debugStart <+: value)

/-- How many words take the next one for their value. -/
def takenWords (argv : List (List Char)) : Nat := (argv.zip argv.tail).countP fun pair => takesValue pair.1 pair.2

def valuedWords (argv : List (List Char)) : Nat := argv.count hostWord + argv.count portWord

variable {loop : OptionLoop} {arg : List Char} {next : Option (List Char)}

theorem takesValue_host (value : List Char) :
    takesValue hostWord value = decide (¬ portWord <+: value ∧ ¬ debugStart <+: value) := by
  simp [takesValue, words_differ.1]

theorem takesValue_port (value : List Char) :
    takesValue portWord value = decide (¬ hostWord <+: value ∧ ¬ debugStart <+: value) := by
  simp [takesValue, words_differ.1.symm]

theorem takes_valued (takes : next.any (takesValue arg)) : arg = hostWord ∨ arg = portWord := by
  obtain ⟨value, -, takes⟩ := (Option.any_eq_true _ _).mp takes
  exact (of_decide_eq_true takes).1.imp And.left And.left

theorem valued_plain (valued : arg = hostWord ∨ arg = portWord) : arg ≠ debugWord := by
  rcases valued with rfl | rfl
  · exact words_differ.2.1
  · exact words_differ.2.2

/-! ### What is seen of a word -/

theorem look_taken (takes : next.any (takesValue arg)) : ∃ c, look arg next = .choice c ∧ c.value.isSome := by
  have valued := takes_valued takes
  obtain ⟨value, rfl, taken⟩ := (Option.any_eq_true _ _).mp takes
  rcases valued with rfl | rfl
  · rw [takesValue_host] at taken
    exact ⟨.host value, by rw [look, if_pos rfl, lookValue, if_pos (of_decide_eq_true taken)], rfl⟩
  · rw [takesValue_port] at taken
    refine ⟨.port value, ?_, rfl⟩
    rw [look, if_neg words_differ.1.symm, if_pos rfl, lookValue, if_pos (of_decide_eq_true taken)]

theorem look_bad (untaken : ¬ next.any (takesValue arg)) (valued : arg = hostWord ∨ arg = portWord) : look arg next = .bad := by
  cases next with
  | none =>
    rcases valued with rfl | rfl
    · rw [look, if_pos rfl, lookValue]
    · rw [look, if_neg words_differ.1.symm, if_pos rfl, lookValue]
  | some value =>
    rw [Option.any_some] at untaken
    rcases valued with rfl | rfl
    · rw [takesValue_host, decide_eq_true_eq] at untaken
      rw [look, if_pos rfl, lookValue, if_neg untaken]
    · rw [takesValue_port, decide_eq_true_eq] at untaken
      rw [look, if_neg words_differ.1.symm, if_pos rfl, lookValue, if_neg untaken]

theorem look_unvalued (unvalued : ¬ (arg = hostWord ∨ arg = portWord)) :
    look arg next = if arg = debugWord then .choice .debug else .other := by
  obtain ⟨host, port⟩ := not_or.mp unvalued
  rw [look, if_neg host, if_neg port]

/-! ### Counts -/

theorem takenWords_cons (arg : List Char) (rest : List (List Char)) :
    takenWords (arg :: rest) = (if rest.head?.any (takesValue arg) then 1 else 0) + takenWords rest := by
  cases rest with
  | nil => rfl
  | cons value rest =>
    show (((arg, value) :: (value :: rest).zip rest).countP fun pair => takesValue pair.1 pair.2) = _
    rw [List.countP_cons, Nat.add_comm]
    rfl

theorem valuedWords_cons (arg : List Char) (rest : List (List Char)) :
    valuedWords (arg :: rest) = (if arg = hostWord ∨ arg = portWord then 1 else 0) + valuedWords rest := by
  have differ := words_differ.1
  simp only [valuedWords, List.count_cons, beq_iff_eq]
  split_ifs with host port either either either <;> simp_all <;> omega

/-- What the loop counts of a word and its next one. -/
structure WordCounts (arg : List Char) (next : Option (List Char)) : Prop where
  taken : (look arg next).choice?.toList.countP (·.value.isSome) = if next.any (takesValue arg) then 1 else 0
  length : (look arg next).choice?.toList.length =
    (if next.any (takesValue arg) then 1 else 0) + if arg = debugWord then 1 else 0
  bad : (if look arg next = .bad then 1 else 0) + (if next.any (takesValue arg) then 1 else 0) =
    if arg = hostWord ∨ arg = portWord then 1 else 0

theorem wordCounts (arg : List Char) (next : Option (List Char)) : WordCounts arg next := by
  by_cases taken : next.any (takesValue arg)
  · have valued := takes_valued taken
    have other := valued_plain valued
    obtain ⟨c, seen, some⟩ := look_taken taken
    constructor <;> simp [seen, Seen.choice?, taken, valued, other, some]
  · by_cases valued : arg = hostWord ∨ arg = portWord
    · have other := valued_plain valued
      have seen := look_bad taken valued
      constructor <;> simp [seen, Seen.choice?, taken, valued, other]
    · have seen := @look_unvalued arg next valued
      by_cases debug : arg = debugWord
      · subst debug
        rw [if_pos rfl] at seen
        constructor <;> rw [seen] <;> simp [Seen.choice?, taken, valued, Choice.value]
      · rw [if_neg debug] at seen
        constructor <;> rw [seen] <;> simp [Seen.choice?, taken, valued, debug]

theorem chosen_taken (argv : List (List Char)) : (chosen argv).countP (·.value.isSome) = takenWords argv := by
  induction argv with
  | nil => rfl
  | cons arg rest ih => rw [chosen_cons, List.countP_append, ih, (wordCounts arg rest.head?).taken, takenWords_cons]

theorem chosen_length (argv : List (List Char)) : (chosen argv).length = takenWords argv + argv.count debugWord := by
  induction argv with
  | nil => rfl
  | cons arg rest ih =>
    rw [chosen_cons, List.length_append, ih, (wordCounts arg rest.head?).length, takenWords_cons, List.count_cons]
    simp only [beq_iff_eq]
    omega

theorem looks_bad (argv : List (List Char)) : (looks argv).count .bad + takenWords argv = valuedWords argv := by
  induction argv with
  | nil => rfl
  | cons arg rest ih =>
    have one := (wordCounts arg rest.head?).bad
    rw [looks, List.count_cons, takenWords_cons, valuedWords_cons, ← ih, ← one]
    simp only [beq_iff_eq]
    omega

theorem counted_taken_words (loop : OptionLoop) (argv : List (List Char)) :
    (loop.counted (looks argv)).countP (·.value.isSome) = takenWords argv := by
  rw [← chosen_taken, OptionLoop.counted, List.countP_filter]
  refine List.countP_congr fun c _ => ?_
  rw [OptionLoop.knows, Bool.and_eq_true, Bool.or_eq_true]
  exact ⟨And.left, fun valued => ⟨valued, Or.inr valued⟩⟩

theorem counted_length (loop : OptionLoop) (argv : List (List Char)) :
    (loop.counted (looks argv)).length = takenWords argv + if loop.debug then argv.count debugWord else 0 := by
  cases debug : loop.debug with
  | true =>
    have all : loop.counted (looks argv) = chosen argv :=
      List.filter_eq_self.mpr fun c _ => by rw [OptionLoop.knows, debug, Bool.true_or]
    rw [all, chosen_length]
    rfl
  | false =>
    have valued : ∀ c ∈ loop.counted (looks argv), c.value.isSome := by
      intro c member
      have knows := (List.mem_filter.mp member).2
      rwa [OptionLoop.knows, debug, Bool.false_or] at knows
    rw [← List.countP_eq_length.mpr valued, counted_taken_words]
    rfl

/-- The loop asks that every option has a value that it takes if it is strict, for one such option if it tests `arg_flag`, and
for a number of options. -/
theorem passes_words (loop : OptionLoop) (argv : List (List Char)) :
    loop.Passes (looks argv) ↔ (loop.strict → takenWords argv = valuedWords argv) ∧ (loop.once → takenWords argv ≤ 1) ∧
      takenWords argv + (if loop.debug then argv.count debugWord else 0) = loop.count := by
  have bads := looks_bad argv
  have good : .bad ∉ looks argv ↔ takenWords argv = valuedWords argv := by
    rw [← List.count_eq_zero]
    omega
  rw [← good, ← counted_length, ← counted_taken_words loop]
  exact ⟨fun passes => ⟨passes.good, passes.once, passes.count⟩, fun asks => ⟨asks.1, asks.2.1, asks.2.2⟩⟩

end OsLab.Projects
