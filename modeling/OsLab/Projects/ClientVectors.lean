import OsLab.Projects.ClientWords

/-!
# Argument vectors of the client

For which argument vectors the client takes what they say.
-/

namespace OsLab.Projects
open CText

/-! ### The loop for a number of arguments -/

def loopFor : Nat → Option OptionLoop
  | 5 => some loopSix
  | 4 => some loopFive
  | 3 => some loopFour
  | 2 => some loopThree
  | _ => none

theorem clientArguments_loop {name : List Char} {args : List (List Char)} {loop : OptionLoop}
    (known : loopFor args.length = some loop) : clientArguments (name :: args) = loop.run (name :: args) := by
  unfold clientArguments
  rw [List.length_cons]
  generalize args.length = n at known
  unfold loopFor at known
  split at known <;> cases known <;> rfl

/-- The options of an arrangement are all those that its loop asks for. -/
theorem loopFor_counts {choices : List Choice} {args : List (List Char)} {loop : OptionLoop}
    (known : loopFor args.length = some loop) (arranged : Arranges choices args) :
    choices.length = loop.count ∧ (loop.once → choices.countP (·.value.isSome) = 1) ∧
      (loop.debug = false → choices.countP (·.value.isSome) = choices.length) := by
  have size := length_words choices
  have bounds := once_bounds arranged.once
  have most := List.countP_le_length (p := (·.value.isSome)) (l := choices)
  rw [← arranged.words] at size
  generalize args.length = n at known size
  generalize choices.countP (·.value.isSome) = valued at *
  generalize choices.length = all at *
  unfold loopFor at known
  split at known <;> cases known <;> simp [loopSix, loopFive, loopFour, loopThree] <;> omega

/-- As many options as the loop asks for, each once, fill the arguments. -/
theorem loopFor_length {choices : List Choice} {n : Nat} {loop : OptionLoop} (known : loopFor n = some loop)
    (once : (choices.map Choice.word).Nodup) (count : choices.length = loop.count)
    (most : loop.once → choices.countP (·.value.isSome) ≤ 1)
    (unvalued : loop.debug = false → choices.countP (·.value.isSome) = choices.length) :
    (choices.flatMap Choice.words).length = n := by
  have bounds := once_bounds once
  rw [length_words]
  generalize choices.countP (·.value.isSome) = valued at *
  generalize choices.length = all at *
  unfold loopFor at known
  split at known <;> cases known <;> simp [loopSix, loopFive, loopFour, loopThree] at count most unvalued <;> omega

/-! ### Loops on arrangements -/

theorem counted_arrangement {choices : List Choice} {args : List (List Char)} {loop : OptionLoop}
    (known : loopFor args.length = some loop) (arranged : Arranges choices args) :
    loop.counted (looks args) = choices.filter fun c => !c.cut := by
  have knows : ∀ c ∈ choices, loop.knows c := by
    intro c member
    cases debug : loop.debug with
    | true => exact Bool.or_eq_true_iff.mpr (.inl debug)
    | false =>
      have valued := List.countP_eq_length.mp ((loopFor_counts known arranged).2.2 debug)
      exact Bool.or_eq_true_iff.mpr (.inr (valued c member))
  show (chosen args).filter loop.knows = _
  rw [chosen_words arranged, List.filter_eq_self.mpr]
  exact fun c member => knows c (List.mem_of_mem_filter member)

theorem arrangement_passes {choices : List Choice} {args : List (List Char)} {loop : OptionLoop}
    (known : loopFor args.length = some loop) (arranged : Arranges choices args) (uncut : ¬ ∃ c ∈ choices, c.cut) :
    loop.counted (looks args) = choices ∧ loop.Passes (looks args) := by
  have counted : loop.counted (looks args) = choices := by
    rw [counted_arrangement known arranged, List.filter_eq_self]
    intro c member
    have plain : c.cut = false := Bool.eq_false_iff.mpr fun cut => uncut ⟨c, member, cut⟩
    rw [plain]
    rfl
  obtain ⟨count, once, _⟩ := loopFor_counts known arranged
  refine ⟨counted, fun _ bad => uncut ((bad_words arranged).mp bad), fun one => ?_, ?_⟩
  · rw [counted, once one]
  · rw [counted, count]

theorem cut_fails {choices : List Choice} {args : List (List Char)} {loop : OptionLoop}
    (known : loopFor args.length = some loop) (arranged : Arranges choices args) (cut : ∃ c ∈ choices, c.cut) :
    ¬ loop.Passes (looks args) := by
  intro passes
  have count := passes.count
  rw [counted_arrangement known arranged, ← (loopFor_counts known arranged).1] at count
  obtain ⟨c, member, cut⟩ := cut
  have fewer : (choices.filter fun c => !c.cut).length < choices.length :=
    List.length_filter_lt_length_iff_exists.mpr ⟨c, member, by rw [cut]; decide⟩
  exact Nat.ne_of_lt fewer count

/-- What passes is an arrangement unless an option's word stands twice or a value begins with its own option's word. -/
theorem passes_arranges {args : List (List Char)} {loop : OptionLoop} (known : loopFor args.length = some loop)
    (passes : loop.Passes (looks args)) (single : ¬ Repeated args) (plain : ¬ OwnValue args) :
    Arranges (loop.counted (looks args)) args := by
  have taken : (loop.counted (looks args)).Sublist (chosen args) := List.filter_sublist
  have words := (taken.map Choice.word).trans (chosen_word_sublist args)
  have once : ((loop.counted (looks args)).map Choice.word).Nodup := by
    refine List.nodup_iff_count_le_one.mpr fun word => ?_
    by_contra twice
    have stands : word ∈ (loop.counted (looks args)).map Choice.word := List.count_pos_iff.mp (by omega)
    obtain ⟨c, _, rfl⟩ := List.mem_map.mp stands
    exact single ⟨c, (Nat.not_le.mp twice).trans_le (words.count_le _)⟩
  have fills : ((loop.counted (looks args)).flatMap Choice.words).Sublist args :=
    (taken.flatMap Choice.words).trans (chosen_sublist plain)
  have length : ((loop.counted (looks args)).flatMap Choice.words).length = args.length := by
    refine loopFor_length known once passes.count passes.once fun unknown => List.countP_eq_length.mpr fun c member => ?_
    have knows := (List.mem_filter.mp member).2
    rwa [OptionLoop.knows, unknown, Bool.false_or] at knows
  exact ⟨(fills.eq_of_length length).symm, once, fun c member => chosen_plain plain c (taken.subset member)⟩

/-! ### The name of the program -/

/-- The loop counts the option, or it ends the program there. -/
def OptionLoop.Takes (loop : OptionLoop) : Seen → Prop
  | .choice c => loop.knows c
  | .bad => loop.strict
  | .other => False

theorem counted_untaken {loop : OptionLoop} {seen : Seen} (untaken : ¬ loop.Takes seen) (seens : List Seen) :
    loop.counted (seen :: seens) = loop.counted seens := by
  rw [counted_cons]
  cases seen with
  | choice c => exact if_neg untaken
  | bad => rfl
  | other => rfl

theorem passes_untaken {loop : OptionLoop} {seen : Seen} (untaken : ¬ loop.Takes seen) (seens : List Seen) :
    loop.Passes (seen :: seens) ↔ loop.Passes seens := by
  have counted := counted_untaken untaken seens
  have bad : (loop.strict → .bad ∉ seen :: seens) ↔ (loop.strict → .bad ∉ seens) := by
    refine forall_congr' fun strict => not_congr (List.mem_cons.trans (or_iff_right fun same => ?_))
    exact untaken (same ▸ strict)
  constructor
  · intro passes
    refine ⟨bad.mp passes.good, ?_, ?_⟩
    · exact counted ▸ passes.once
    · exact counted ▸ passes.count
  · intro passes
    refine ⟨bad.mpr passes.good, ?_, ?_⟩
    · exact counted.symm ▸ passes.once
    · exact counted.symm ▸ passes.count

/-! ### Argument vectors -/

/-- `argv[0]` is an option's word that the loop for so many arguments takes, or at which it ends the program. -/
def NameTaken (name : List Char) (args : List (List Char)) : Prop :=
  match args.length with
  | 5 => name = hostWord ∨ name = portWord ∨ name = debugWord
  | 4 | 2 => name = hostWord ∨ name = portWord
  | 3 => name = debugWord ∨ args.head?.any (takesValue name)
  | _ => False

/-- The option words of the arguments are those that the loop asks for: it counts enough of them, no `--host` or `--port` stops
a loop that asks for a value of each, and only one takes a value where `arg_flag` is tested. -/
def EnoughWords (args : List (List Char)) : Prop :=
  match args.length with
  | 5 => takenWords args = valuedWords args ∧ takenWords args + args.count debugWord = 3
  | 4 => takenWords args = valuedWords args ∧ takenWords args = 2
  | 3 => takenWords args ≤ 1 ∧ takenWords args + args.count debugWord = 2
  | 2 => takenWords args = valuedWords args ∧ takenWords args = 1
  | _ => False

/-- With `argv[0]` among them the option words are those that the loop asks for. -/
def OneShort (name : List Char) (args : List (List Char)) : Prop :=
  match args.length with
  | 5 => (name = debugWord ∨ args.head?.any (takesValue name)) ∧ takenWords args = valuedWords args ∧
      takenWords args + args.count debugWord = 2
  | 4 => args.head?.any (takesValue name) ∧ takenWords args = valuedWords args ∧ takenWords args = 1
  | 3 => takenWords args + args.count debugWord = 1 ∧ (name = debugWord ∨ takenWords args = 0)
  | 2 => args.head?.any (takesValue name) ∧ valuedWords args = 0
  | _ => False

/-- A value of an arrangement begins like `--debug`. -/
def CutValue (args : List (List Char)) : Prop := ∃ choices, Arranges choices args ∧ ∃ c ∈ choices, c.cut

/-- The arguments after `--port` whose two ports are both zero. -/
def PortTwice (name : List Char) (args : List (List Char)) : Prop :=
  name = portWord ∧ ∃ value, args = [portWord, value, debugWord] ∧ debugStart <+: value ∧ PlainValue value

/-! ### Conditions on the words -/

theorem takes_words (loop : OptionLoop) (arg : List Char) (next : Option (List Char)) :
    loop.Takes (look arg next) ↔ next.any (takesValue arg) ∨ loop.strict ∧ (arg = hostWord ∨ arg = portWord) ∨
      loop.debug ∧ arg = debugWord := by
  by_cases taken : next.any (takesValue arg)
  · obtain ⟨c, seen, some⟩ := look_taken taken
    rw [seen]
    exact iff_of_true (Bool.or_eq_true_iff.mpr (.inr some)) (.inl taken)
  · by_cases valued : arg = hostWord ∨ arg = portWord
    · have other := valued_plain valued
      rw [look_bad taken valued]
      simp [OptionLoop.Takes, taken, valued, other]
    · rw [look_unvalued valued]
      by_cases debug : arg = debugWord
      · subst debug
        simp [OptionLoop.Takes, OptionLoop.knows, Choice.value, taken, valued]
      · simp [OptionLoop.Takes, taken, valued, debug]

theorem nameTaken_iff {name : List Char} {args : List (List Char)} {loop : OptionLoop}
    (known : loopFor args.length = some loop) : NameTaken name args ↔ loop.Takes (look name args.head?) := by
  have valued : args.head?.any (takesValue name) → name = hostWord ∨ name = portWord := takes_valued
  rw [takes_words]
  unfold NameTaken
  generalize args.length = n at known
  generalize args.head?.any (takesValue name) = takes at valued ⊢
  generalize (name = hostWord) = host at valued ⊢
  generalize (name = portWord) = port at valued ⊢
  generalize (name = debugWord) = debug
  unfold loopFor at known
  split at known <;> cases known <;> simp only [loopSix, loopFive, loopFour, loopThree] <;> grind

theorem enoughWords_iff {args : List (List Char)} {loop : OptionLoop} (known : loopFor args.length = some loop) :
    EnoughWords args ↔ loop.Passes (looks args) := by
  rw [passes_words]
  unfold EnoughWords
  generalize args.length = n at known
  unfold loopFor at known
  split at known <;> cases known <;> simp [loopSix, loopFive, loopFour, loopThree]
  omega

/-- The name is one word more. -/
theorem oneShort_iff {name : List Char} {args : List (List Char)} {loop : OptionLoop}
    (known : loopFor args.length = some loop) (taken : NameTaken name args) :
    OneShort name args ↔ loop.Passes (looks (name :: args)) := by
  have bads := looks_bad args
  rw [passes_words, takenWords_cons, valuedWords_cons, List.count_cons]
  simp only [beq_iff_eq]
  unfold NameTaken at taken
  unfold OneShort
  generalize args.length = n at known taken
  by_cases debug : name = debugWord
  · have unvalued : ¬ (name = hostWord ∨ name = portWord) := fun valued => valued_plain valued debug
    have untaken : ¬ args.head?.any (takesValue name) := fun takes => unvalued (takes_valued takes)
    subst debug
    unfold loopFor at known
    split at known <;> cases known <;> simp [loopSix, loopFour, unvalued, untaken] at taken ⊢ <;> omega
  by_cases takes : args.head?.any (takesValue name)
  · have valued := takes_valued takes
    unfold loopFor at known
    split at known <;> cases known <;> simp [loopSix, loopFive, loopFour, loopThree, takes, valued, debug] <;> omega
  · have valued : name = hostWord ∨ name = portWord := by
      split at taken <;> simp_all
    unfold loopFor at known
    split at known <;> cases known <;> simp [loopSix, loopFive, loopThree, takes, valued, debug] at taken ⊢ <;> omega

/-! ### Names that are not taken -/

theorem reads_loop {name : List Char} {args : List (List Char)} {loop : OptionLoop}
    (known : loopFor args.length = some loop) :
    ReadsArguments name args ↔
      (∀ choices, Arranges choices args → loop.Passes (looks (name :: args)) ∧
        choices.foldl Choice.apply defaults = (loop.counted (looks (name :: args))).foldl Choice.apply defaults) ∧
      (loop.Passes (looks (name :: args)) → ∃ choices, Arranges choices args) := by
  have accepts : ∀ s, clientArguments (name :: args) = .ok s ↔ _ := fun s =>
    clientArguments_loop known ▸ run_iff loop (name :: args) s
  constructor
  · intro reads
    refine ⟨fun choices arranged => ?_, fun passes => ?_⟩
    · exact (accepts _).mp ((reads _).mpr ⟨choices, arranged, rfl⟩)
    · obtain ⟨choices, arranged, _⟩ := (reads _).mp ((accepts _).mpr ⟨passes, rfl⟩)
      exact ⟨choices, arranged⟩
  · rintro ⟨given, passing⟩ s
    rw [accepts]
    constructor
    · rintro ⟨passes, rfl⟩
      obtain ⟨choices, arranged⟩ := passing passes
      exact ⟨choices, arranged, (given choices arranged).2.symm⟩
    · rintro ⟨choices, arranged, rfl⟩
      exact given choices arranged

theorem arrangement_unique {choices others : List Choice} {args : List (List Char)} (arranged : Arranges choices args)
    (other : Arranges others args) : choices = others :=
  words_injective (arranged.words.symm.trans other.words)

theorem arranges_nil : Arranges [] [] := ⟨rfl, List.nodup_nil, nofun⟩

theorem arranges_debug : Arranges [.debug] [debugWord] := by
  refine ⟨rfl, List.nodup_singleton _, fun c member value valued => ?_⟩
  cases List.mem_singleton.mp member
  cases valued

theorem arranges_lone {choices : List Choice} {arg : List Char} (arranged : Arranges choices [arg]) : arg = debugWord := by
  have words := arranged.words
  cases choices with
  | nil => cases words
  | cons c choices =>
    rw [List.flatMap_cons] at words
    cases c with
    | host value => cases words
    | port value => cases words
    | debug => exact (List.cons.inj words).1

theorem arranges_length {choices : List Choice} {args : List (List Char)} (arranged : Arranges choices args) :
    args.length ≤ 5 := by
  have bounds := once_bounds arranged.once
  rw [arranged.words, length_words]
  omega

theorem loopFor_none {n : Nat} (unlooped : loopFor n = none) : n < 2 ∨ 5 < n := by
  rcases n with _ | _ | _ | _ | _ | _ | n
  all_goals first | omega | cases unlooped

theorem unlooped_words {args : List (List Char)} (unlooped : loopFor args.length = none) (name : List Char) :
    ¬ NameTaken name args ∧ ¬ EnoughWords args := by
  unfold NameTaken EnoughWords
  generalize args.length = n at unlooped
  unfold loopFor at unlooped
  split at unlooped
  case h_5 => simp_all
  all_goals cases unlooped

/-- Where no loop runs, the arguments are read as they are. -/
theorem reads_unlooped {name : List Char} {args : List (List Char)} (unlooped : loopFor args.length = none) :
    ReadsArguments name args := by
  intro s
  rcases args with _ | ⟨arg, _ | ⟨second, rest⟩⟩
  · constructor
    · exact fun done => ⟨[], arranges_nil, (Except.ok.inj done).symm⟩
    · rintro ⟨choices, arranged, rfl⟩
      rw [arrangement_unique arranged arranges_nil]
      rfl
  · show (if some arg ≠ some debugWord then _ else Except.ok { defaults with debug := true }) = _ ↔ _
    split_ifs with wrong
    · refine iff_of_false nofun ?_
      rintro ⟨choices, arranged, _⟩
      exact wrong (congrArg some (arranges_lone arranged))
    · cases Option.some.inj (not_not.mp wrong)
      constructor
      · exact fun done => ⟨[.debug], arranges_debug, (Except.ok.inj done).symm⟩
      · rintro ⟨choices, arranged, rfl⟩
        rw [arrangement_unique arranged arranges_debug]
        rfl
  · have long : 5 < (arg :: second :: rest).length := by
      rcases loopFor_none unlooped with short | long
      · rw [List.length_cons, List.length_cons] at short
        omega
      · exact long
    unfold clientArguments
    rw [if_pos (by rw [List.length_cons]; omega)]
    refine iff_of_false nofun ?_
    rintro ⟨choices, arranged, _⟩
    exact Nat.not_le.mpr long (arranges_length arranged)

theorem unlooped_uncut {args : List (List Char)} (unlooped : loopFor args.length = none) : ¬ CutValue args := by
  rintro ⟨choices, arranged, c, member, cut⟩
  have valued : 0 < choices.countP (·.value.isSome) := by
    refine List.countP_pos_iff.mpr ⟨c, member, ?_⟩
    cases c with
    | debug => cases cut
    | host _ => rfl
    | port _ => rfl
  have all := List.countP_le_length (p := (·.value.isSome)) (l := choices)
  have length := length_words choices
  rw [← arranged.words] at length
  have short := arranges_length arranged
  have ends := loopFor_none unlooped
  omega

theorem reads_untaken {name : List Char} {args : List (List Char)} {loop : OptionLoop}
    (known : loopFor args.length = some loop) (untaken : ¬ loop.Takes (look name args.head?)) :
    ReadsArguments name args ↔
      ¬ CutValue args ∧ ¬ (loop.Passes (looks args) ∧ (Repeated args ∨ OwnValue args)) := by
  rw [reads_loop known, looks, counted_untaken untaken, passes_untaken untaken]
  refine and_congr ?_ ?_
  · constructor
    · rintro given ⟨choices, arranged, cut⟩
      exact cut_fails known arranged cut (given choices arranged).1
    · intro uncut choices arranged
      obtain ⟨counted, passes⟩ := arrangement_passes known arranged fun cut => uncut ⟨choices, arranged, cut⟩
      exact ⟨passes, by rw [counted]⟩
  · constructor
    · rintro passing ⟨passes, wrong⟩
      obtain ⟨choices, arranged⟩ := passing passes
      exact wrong.elim (arrangement_once arranged) (arrangement_values arranged)
    · intro right passes
      refine ⟨_, passes_arranges known passes (fun twice => ?_) fun own => ?_⟩
      · exact right ⟨passes, .inl twice⟩
      · exact right ⟨passes, .inr own⟩

/-! ### The name of the program is an option's word -/

/-- Only the loop for three arguments goes on behind an option without a value. -/
theorem lenient_four {args : List (List Char)} {loop : OptionLoop} (known : loopFor args.length = some loop)
    (lenient : ¬ loop.strict) : loop = loopFour := by
  unfold loopFor at known
  split at known <;> cases known <;> first | rfl | exact absurd rfl lenient

theorem atoi_cut {value : List Char} (starts : debugStart <+: value) : atoi value = 0 := by
  obtain ⟨rest, rfl⟩ := starts
  rfl

theorem counted_taken {loop : OptionLoop} {c : Choice} (knows : loop.knows c) (seens : List Seen) :
    loop.counted (.choice c :: seens) = c :: loop.counted seens := by
  rw [counted_cons]
  exact if_pos knows

/-- An arrangement for three arguments has an option with a value and `--debug`. -/
theorem arrangement_four {choices : List Choice} {args : List (List Char)} (known : loopFor args.length = some loopFour)
    (arranged : Arranges choices args) :
    ∃ c value, c.value = some value ∧ (choices = [c, .debug] ∨ choices = [.debug, c]) := by
  obtain ⟨count, once, _⟩ := loopFor_counts known arranged
  have valued := once rfl
  obtain ⟨c, d, rfl⟩ := List.length_eq_two.mp count
  cases c with
  | host value =>
    cases d with
    | debug => exact ⟨_, value, rfl, .inl rfl⟩
    | host _ => cases valued
    | port _ => cases valued
  | port value =>
    cases d with
    | debug => exact ⟨_, value, rfl, .inl rfl⟩
    | host _ => cases valued
    | port _ => cases valued
  | debug =>
    cases d with
    | debug => cases valued
    | host value => exact ⟨_, value, rfl, .inr rfl⟩
    | port value => exact ⟨_, value, rfl, .inr rfl⟩

theorem apply_four {c : Choice} {choices : List Choice} (order : choices = [c, .debug] ∨ choices = [.debug, c]) :
    choices.foldl Choice.apply defaults = { c.apply defaults with debug := true } := by
  rcases order with rfl | rfl
  · rfl
  · cases c <;> rfl

theorem cut_four {c : Choice} {choices : List Choice} (order : choices = [c, .debug] ∨ choices = [.debug, c])
    (cut : ∃ d ∈ choices, d.cut) : c.cut ∧ (choices.filter fun d => !d.cut) = [.debug] := by
  have starts : c.cut := by
    obtain ⟨d, member, cut⟩ := cut
    rcases order with rfl | rfl <;> rcases List.mem_pair.mp member with rfl | rfl
    all_goals first | exact cut | cases cut
  refine ⟨starts, ?_⟩
  rcases order with rfl | rfl
  all_goals
    rw [List.filter_cons, List.filter_cons, starts]
    rfl

/-- The name is an option more than those of the arrangement, so one of these is not taken. -/
theorem taken_cut {args : List (List Char)} {loop : OptionLoop} {choices : List Choice} {first : Choice}
    (known : loopFor args.length = some loop) (taken : loop.knows first) (arranged : Arranges choices args)
    (passes : loop.Passes (.choice first :: looks args)) : loop = loopFour ∧ ∃ c ∈ choices, c.cut := by
  have count := passes.count
  rw [counted_taken taken, List.length_cons] at count
  have cut : ∃ c ∈ choices, c.cut := by
    by_contra uncut
    have others := (arrangement_passes known arranged uncut).2.count
    omega
  refine ⟨lenient_four known fun strict => ?_, cut⟩
  exact passes.good strict (List.mem_cons_of_mem _ ((bad_words arranged).mpr cut))

theorem default_host : ¬ debugStart <+: defaults.host := by decide

/-- Only for two ports that are both zero do the settings agree. -/
theorem settings_port_twice {name : List Char} {args : List (List Char)} {choices : List Choice} {c first : Choice}
    {value : List Char} (arranged : Arranges choices args) (order : choices = [c, .debug] ∨ choices = [.debug, c])
    (valued : c.value = some value) (begins : debugStart <+: value) (seen : look name args.head? = .choice first)
    (same : ({ c.apply defaults with debug := true } : Settings) = { first.apply defaults with debug := true }) :
    PortTwice name args := by
  obtain ⟨word, values⟩ := look_choice seen
  have plain : PlainValue value := by
    refine arranged.plain c ?_ value valued
    rcases order with rfl | rfl
    · exact List.mem_cons_self
    · exact List.mem_cons_of_mem _ List.mem_cons_self
  have hosts := congrArg Settings.host same
  have ports := congrArg Settings.port same
  cases c with
  | debug => cases valued
  | host given =>
    cases valued
    cases first with
    | host other => exact absurd ((show value = other from hosts) ▸ begins) (values other rfl).2.1
    | port other => exact (default_host ((show value = defaults.host from hosts) ▸ begins)).elim
    | debug => exact (default_host ((show value = defaults.host from hosts) ▸ begins)).elim
  | port given =>
    cases valued
    have zero := (atoi_cut begins).symm.trans ports
    cases first with
    | host other => cases zero
    | debug => cases zero
    | port other =>
      obtain ⟨next, start, _⟩ := values other rfl
      have words := arranged.words
      rcases order with rfl | rfl
      · exact ⟨word.symm, value, words, begins, plain⟩
      · rw [words] at next
        cases next
        exact absurd (by decide) start

theorem taken_port_twice {name : List Char} {args : List (List Char)} {loop : OptionLoop} {choices : List Choice}
    (known : loopFor args.length = some loop) (taken : loop.Takes (look name args.head?)) (arranged : Arranges choices args)
    (passes : loop.Passes (looks (name :: args)))
    (same : choices.foldl Choice.apply defaults = (loop.counted (looks (name :: args))).foldl Choice.apply defaults) :
    PortTwice name args := by
  rw [looks] at passes same
  cases seen : look name args.head? with
  | other => exact (seen ▸ taken : loop.Takes .other).elim
  | bad => exact absurd (seen ▸ List.mem_cons_self) (passes.good (seen ▸ taken : loop.Takes .bad))
  | choice first =>
    rw [seen] at taken passes same
    obtain ⟨rfl, cut⟩ := taken_cut known taken arranged passes
    obtain ⟨c, value, valued, order⟩ := arrangement_four known arranged
    obtain ⟨starts, left⟩ := cut_four order cut
    rw [counted_taken taken, counted_arrangement known arranged, left, apply_four order] at same
    rw [Choice.cut, valued] at starts
    exact settings_port_twice arranged order valued (of_decide_eq_true starts) seen same

/-- Both ports are zero. -/
theorem port_twice_reads {name : List Char} {args : List (List Char)} (twice : PortTwice name args) :
    ReadsArguments name args := by
  obtain ⟨rfl, value, rfl, begins, plain⟩ := twice
  have known : loopFor [portWord, value, debugWord].length = some loopFour := rfl
  have arranged : Arranges [.port value, .debug] [portWord, value, debugWord] := by
    refine ⟨rfl, (by decide : [portWord, debugWord].Nodup), fun c member given valued => ?_⟩
    rcases List.mem_pair.mp member with rfl | rfl
    · cases valued
      exact plain
    · cases valued
  have counted : loopFour.counted (looks [portWord, portWord, value, debugWord]) = [.port portWord, .debug] := by
    have starts : (Choice.port value).cut = true := decide_eq_true begins
    show loopFour.counted (.choice (.port portWord) :: looks [portWord, value, debugWord]) = _
    rw [counted_taken rfl, counted_arrangement known arranged, List.filter_cons, starts]
    rfl
  have passes : loopFour.Passes (looks [portWord, portWord, value, debugWord]) := by
    refine ⟨nofun, fun _ => ?_, ?_⟩
    · rw [counted]
      decide
    · rw [counted]
      rfl
  refine (reads_loop known).mpr ⟨fun choices others => ⟨passes, ?_⟩, fun _ => ⟨_, arranged⟩⟩
  rw [counted, arrangement_unique others arranged]
  show ({ defaults with port := atoi value, debug := true } : Settings) = { defaults with port := 0, debug := true }
  rw [atoi_cut begins]

theorem reads_taken {name : List Char} {args : List (List Char)} {loop : OptionLoop}
    (known : loopFor args.length = some loop) (taken : loop.Takes (look name args.head?)) :
    ReadsArguments name args ↔
      ¬ (∃ choices, Arranges choices args) ∧ ¬ loop.Passes (looks (name :: args)) ∨ PortTwice name args := by
  constructor
  · intro reads
    obtain ⟨given, passing⟩ := (reads_loop known).mp reads
    by_cases arrangement : ∃ choices, Arranges choices args
    · obtain ⟨choices, arranged⟩ := arrangement
      obtain ⟨passes, same⟩ := given choices arranged
      exact .inr (taken_port_twice known taken arranged passes same)
    · exact .inl ⟨arrangement, fun passes => arrangement (passing passes)⟩
  · rintro (⟨none_arranged, fails⟩ | twice)
    · refine (reads_loop known).mpr ⟨fun choices arranged => ?_, fun passes => absurd passes fails⟩
      exact absurd ⟨choices, arranged⟩ none_arranged
    · exact port_twice_reads twice

/-- When the client takes exactly arrangements, with what they give. -/
theorem reads_arguments_iff (name : List Char) (args : List (List Char)) :
    ReadsArguments name args ↔
      (NameTaken name args → ¬ (∃ choices, Arranges choices args) ∧ ¬ OneShort name args ∨ PortTwice name args) ∧
      (¬ NameTaken name args → ¬ CutValue args ∧ ¬ (EnoughWords args ∧ (Repeated args ∨ OwnValue args))) := by
  cases known : loopFor args.length with
  | none =>
    obtain ⟨untaken, few⟩ := unlooped_words known name
    have right : ¬ CutValue args ∧ ¬ (EnoughWords args ∧ (Repeated args ∨ OwnValue args)) :=
      ⟨unlooped_uncut known, fun enough => few enough.1⟩
    exact iff_of_true (reads_unlooped known) ⟨fun taken => absurd taken untaken, fun _ => right⟩
  | some loop =>
    by_cases taken : NameTaken name args
    · rw [reads_taken known ((nameTaken_iff known).mp taken), ← oneShort_iff known taken]
      exact ⟨fun right => ⟨fun _ => right, fun untaken => absurd taken untaken⟩, fun right => right.1 taken⟩
    · rw [reads_untaken known (mt (nameTaken_iff known).mpr taken), ← enoughWords_iff known]
      exact ⟨fun right => ⟨fun taken' => absurd taken' taken, fun _ => right⟩, fun right => right.2 taken⟩

/-- Two hosts are as many words as a host and a port. -/
theorem two_hosts_accepted :
    ¬ ReadsArguments "tcp_client".toList ["--host".toList, "a".toList, "--host".toList, "b".toList] := by
  intro reads
  obtain ⟨choices, arranged, _⟩ := (reads ⟨"b".toList, 18080, false⟩).mp (by decide)
  exact arrangement_once arranged ⟨.host [], by decide⟩

end OsLab.Projects
