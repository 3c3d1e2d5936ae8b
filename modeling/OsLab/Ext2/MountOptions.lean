import OsLab.Foundation.Runs
import OsLab.Ext2.MountState
import Mathlib.Data.List.TakeWhile

/-!
# Mount options

The texts of `parse_options` and `ext2_show_options`, and the options of a file system over its
mounts and remounts.
-/

namespace OsLab.Ext2

/-! ### Texts -/

/-- `strsep`: the text before the first delimiter, and what is behind it. -/
def strsep (delim : Char) (s : List Char) : List Char × Option (List Char) :=
  match s.dropWhile (· ≠ delim) with
  | [] => (s, none)
  | _ :: rest => (s.takeWhile (· ≠ delim), some rest)

def tokens : List (MountToken × List Char) :=
  [(.errCont, "errors=continue".toList), (.errPanic, "errors=panic".toList), (.errRo, "errors=remount-ro".toList),
    (.debug, "debug".toList)]

/-- `match_token`. `none` where no pattern is the word: the table has no last entry without a pattern, and
the kernel reads on behind it. -/
def matchToken (p : List Char) : Option MountToken := (tokens.find? fun token => token.2 = p).map (·.1)

def setToken (opt : MountOpt) : MountToken → MountOpt
  | .errPanic => { opt with errorsCont := false, errorsRo := false, errorsPanic := true }
  | .errRo => { opt with errorsCont := false, errorsPanic := false, errorsRo := true }
  | .errCont => { opt with errorsRo := false, errorsPanic := false, errorsCont := true }
  | .debug => { opt with debug := true }
  | .unknown => opt

theorem strsep_shorter {delim : Char} {s rest : List Char} (found : (strsep delim s).2 = some rest) :
    rest.length < s.length := by
  unfold strsep at found
  have cut := List.length_dropWhile_le (· ≠ delim) s
  cases behind : s.dropWhile (· ≠ delim) with
  | nil =>
    rw [behind] at found
    cases found
  | cons c others =>
    rw [behind] at found cut
    obtain rfl := Option.some.inj found
    exact cut

/-- What a round of the loop of `parse_options` makes of a word. -/
def parseWord (opt : MountOpt) (p : List Char) : Option MountOpt :=
  if p = [] then some opt else (matchToken p).map (setToken opt)

/-- The loop of `parse_options`. `none` where `match_token` reads behind the table. -/
def parseWords (opt : MountOpt) (s : List Char) : Option MountOpt :=
  match parseWord opt (strsep ',' s).1 with
  | none => none
  | some opt =>
    match _h : (strsep ',' s).2 with
    | none => some opt
    | some rest => parseWords opt rest
termination_by s.length
decreasing_by exact strsep_shorter _h

/-- `parse_options` of a text, with `NULL` for the text that is missing. It returns 1 if it returns. -/
def parseText (options : Option (List Char)) (opt : MountOpt) : Option MountOpt :=
  match options with
  | none => some opt
  | some s => parseWords opt s

def ext2ShowOptions (opt : MountOpt) (sErrors : UInt16) : List Char :=
  (if opt.errorsRo then
    if sErrors = errorsPanic ∨ sErrors = errorsContinue then ",errors=remount-ro".toList else []
  else []) ++
  (if opt.errorsCont then ",errors=continue".toList else []) ++
  (if opt.errorsPanic then ",errors=panic".toList else []) ++
  (if opt.debug then ",debug".toList else [])

/-! ### Words -/

/-- The words of a text, without the empty ones. -/
def optionWords (s : List Char) : List (List Char) := (s.splitOn ',').filter (· ≠ [])

theorem strsep_splitOn (delim : Char) (s : List Char) :
    s.splitOn delim = (strsep delim s).1 :: (strsep delim s).2.elim [] (·.splitOn delim) := by
  have parts := List.takeWhile_append_dropWhile (p := (· ≠ delim)) (l := s)
  have plain : delim ∉ s.takeWhile (· ≠ delim) := by
    intro member
    have other := List.mem_takeWhile_imp member
    simp at other
  unfold strsep
  cases behind : s.dropWhile (· ≠ delim) with
  | nil =>
    rw [behind, List.append_nil] at parts
    rw [parts] at plain
    exact List.splitOn_eq_singleton plain
  | cons c rest =>
    have found : c = delim := by
      have head := List.head?_dropWhile_not (· ≠ delim) s
      rw [behind] at head
      simpa using head
    subst found
    rw [behind] at parts
    conv_lhs => rw [← parts]
    exact List.splitOn_append_cons_self_of_not_mem plain rest

theorem optionWords_strsep (s : List Char) : optionWords s =
    (if (strsep ',' s).1 = [] then [] else [(strsep ',' s).1]) ++ (strsep ',' s).2.elim [] optionWords := by
  unfold optionWords
  rw [strsep_splitOn, List.filter_cons]
  have rest : ((strsep ',' s).2.elim [] (·.splitOn ',')).filter (· ≠ []) =
      (strsep ',' s).2.elim [] fun s => (s.splitOn ',').filter (· ≠ []) := by
    cases (strsep ',' s).2 with
    | none => rfl
    | some rest => rfl
  rw [rest]
  by_cases empty : (strsep ',' s).1 = []
  · simp [empty]
  · simp [empty]

/-- The loop goes through the words that are not empty. -/
theorem parseWords_eq (opt : MountOpt) (s : List Char) :
    parseWords opt s = (optionWords s).foldlM (fun opt p => (matchToken p).map (setToken opt)) opt := by
  have first : ∀ (opt : MountOpt) (p : List Char),
      (if p = [] then [] else [p]).foldlM (fun opt p => (matchToken p).map (setToken opt)) opt = parseWord opt p := by
    intro opt p
    unfold parseWord
    split_ifs
    · rfl
    · simp
  fun_induction parseWords opt s with
  | case1 opt s stops => rw [optionWords_strsep, List.foldlM_append, first, stops, Option.bind_eq_bind, Option.bind_none]
  | case2 opt s opt' continues last =>
    rw [optionWords_strsep, List.foldlM_append, first, continues, last]
    rfl
  | case3 opt s opt' continues rest more ih =>
    rw [optionWords_strsep, List.foldlM_append, first, continues, more]
    exact ih

/-- The words of a text as tokens; `none` where one is not in the table. -/
def textTokens (options : Option (List Char)) : Option (List MountToken) :=
  (options.elim [] optionWords).mapM matchToken

theorem matchToken_known (p : List Char) : matchToken p ≠ some .unknown := by
  unfold matchToken
  intro found
  obtain ⟨token, member, same⟩ := Option.map_eq_some_iff.mp found
  have known : ∀ token ∈ tokens, token.1 ≠ .unknown := by decide
  exact known token (List.mem_of_find?_eq_some member) same

theorem parseOptions_cons {token : MountToken} (known : token ≠ .unknown) (options : List MountToken) (opt : MountOpt) :
    parseOptions (token :: options) opt = parseOptions options (setToken opt token) := by
  cases token with
  | unknown => exact absurd rfl known
  | _ => rfl

/-- `parse_options` does to a text what it does to the tokens of the words. -/
theorem parseText_tokens (options : Option (List Char)) (opt : MountOpt) :
    parseText options opt = (textTokens options).bind fun tokens => parseOptions tokens opt := by
  have folded : ∀ (words : List (List Char)) (opt : MountOpt),
      words.foldlM (fun opt p => (matchToken p).map (setToken opt)) opt =
        (words.mapM matchToken).bind fun tokens => parseOptions tokens opt := by
    intro words
    induction words with
    | nil => intro opt; rfl
    | cons p words ih =>
      intro opt
      rw [List.foldlM_cons, List.mapM_cons]
      cases matched : matchToken p with
      | none => rfl
      | some token =>
        have known : token ≠ .unknown := fun same => matchToken_known p (matched.trans (congrArg some same))
        simp only [Option.map_some, Option.bind_eq_bind, Option.bind_some]
        rw [ih]
        cases words.mapM matchToken with
        | none => rfl
        | some tokens => exact (parseOptions_cons known tokens opt).symm
  unfold parseText textTokens
  cases options with
  | none => rfl
  | some s => exact (parseWords_eq opt s).trans (folded _ opt)

/-! ### Policies -/

inductive ErrorPolicy where
  | cont
  | panic
  | ro
  deriving DecidableEq, Repr

def MountOpt.ofPolicy : ErrorPolicy → Bool → MountOpt
  | .cont, debug => ⟨debug, true, false, false⟩
  | .ro, debug => ⟨debug, false, true, false⟩
  | .panic, debug => ⟨debug, false, false, true⟩

/-- The policy after one more option. -/
def nextPolicy (policy : ErrorPolicy) : MountToken → ErrorPolicy
  | .errCont => .cont
  | .errPanic => .panic
  | .errRo => .ro
  | .debug | .unknown => policy

def defaultPolicy (es : DiskSuper) : ErrorPolicy :=
  if es.sErrors = errorsPanic then .panic else if es.sErrors = errorsContinue then .cont else .ro

/-- The last policy among the options wins, and `debug` stays. -/
theorem parseOptions_policy (options : List MountToken) (policy : ErrorPolicy) (debug : Bool) :
    parseOptions options (.ofPolicy policy debug) =
      if .unknown ∈ options then none
      else some (.ofPolicy (options.foldl nextPolicy policy) (debug || decide (.debug ∈ options))) := by
  induction options generalizing policy debug with
  | nil => simp [parseOptions]
  | cons token options ih =>
    have first : token ≠ .unknown → parseOptions (token :: options) (.ofPolicy policy debug) =
        parseOptions options (.ofPolicy (nextPolicy policy token) (debug || decide (token = .debug))) := by
      intro known
      rw [parseOptions_cons known]
      cases token with
      | unknown => exact absurd rfl known
      | _ => cases policy <;> simp [MountOpt.ofPolicy, setToken, nextPolicy]
    by_cases known : token = .unknown
    · subst known
      rw [if_pos List.mem_cons_self]
      rfl
    · have other : ¬ MountToken.unknown = token := fun same => known same.symm
      rw [first known, ih]
      simp only [List.mem_cons, other, false_or, List.foldl_cons, eq_comm, Bool.decide_or, Bool.or_assoc]

/-- On a text: behind the table if a word that is not empty is no option, else the last policy among the words
and `debug` if it is one of them or was set. -/
theorem parseText_policy (options : Option (List Char)) (policy : ErrorPolicy) (debug : Bool) :
    parseText options (.ofPolicy policy debug) = (textTokens options).map fun tokens =>
      .ofPolicy (tokens.foldl nextPolicy policy) (debug || decide (.debug ∈ tokens)) := by
  have known : ∀ (words : List (List Char)) (tokens : List MountToken), words.mapM matchToken = some tokens →
      .unknown ∉ tokens := by
    intro words
    induction words with
    | nil =>
      intro tokens read
      obtain rfl := Option.some.inj read
      exact List.not_mem_nil
    | cons p words ih =>
      intro tokens read
      rw [List.mapM_cons] at read
      obtain ⟨token, matched, read⟩ := Option.bind_eq_some_iff.mp read
      obtain ⟨rest, others, read⟩ := Option.bind_eq_some_iff.mp read
      obtain rfl := Option.some.inj read
      intro member
      rcases List.mem_cons.mp member with same | later
      · exact matchToken_known p (same ▸ matched)
      · exact ih rest others later
  rw [parseText_tokens]
  cases read : textTokens options with
  | none => rfl
  | some tokens =>
    rw [Option.bind_some, parseOptions_policy, if_neg (known _ tokens read)]
    rfl

theorem mountOptions_policy (es : DiskSuper) (options : List MountToken) :
    mountOptions es options = parseOptions options (.ofPolicy (defaultPolicy es) false) := by
  unfold mountOptions defaultPolicy
  split_ifs <;> rfl

/-! ### Showing -/

/-- The policy that `ext2_show_options` shows: all but the default `errors=remount-ro`. -/
def policyTokens (sErrors : UInt16) : ErrorPolicy → List MountToken
  | .ro => if sErrors = errorsPanic ∨ sErrors = errorsContinue then [.errRo] else []
  | .cont => [.errCont]
  | .panic => [.errPanic]

def shownTokens (policy : ErrorPolicy) (debug : Bool) (sErrors : UInt16) : List MountToken :=
  policyTokens sErrors policy ++ if debug then [.debug] else []

def tokenWord : MountToken → List Char
  | .errCont => "errors=continue".toList
  | .errPanic => "errors=panic".toList
  | .errRo => "errors=remount-ro".toList
  | .debug => "debug".toList
  | .unknown => []

theorem showOptions_tokens (policy : ErrorPolicy) (debug : Bool) (sErrors : UInt16) :
    ext2ShowOptions (.ofPolicy policy debug) sErrors =
      (shownTokens policy debug sErrors).flatMap fun token => ',' :: tokenWord token := by
  unfold ext2ShowOptions shownTokens policyTokens
  cases policy with
  | cont => cases debug <;> rfl
  | panic => cases debug <;> rfl
  | ro =>
    by_cases shown : sErrors = errorsPanic ∨ sErrors = errorsContinue
    · simp only [MountOpt.ofPolicy, shown, if_true]
      cases debug <;> rfl
    · simp only [MountOpt.ofPolicy, shown, if_true, if_false]
      cases debug <;> rfl

theorem shownTokens_known (policy : ErrorPolicy) (debug : Bool) (sErrors : UInt16) :
    .unknown ∉ shownTokens policy debug sErrors ∧ (.debug ∈ shownTokens policy debug sErrors ↔ debug = true) := by
  have policies : .unknown ∉ policyTokens sErrors policy ∧ .debug ∉ policyTokens sErrors policy := by
    unfold policyTokens
    cases policy with
    | cont => simp
    | panic => simp
    | ro => split_ifs <;> simp
  unfold shownTokens
  rw [List.mem_append, List.mem_append]
  cases debug with
  | false => simpa using policies
  | true => simpa using policies.1

/-- A mount that reads the shown policy has that policy. -/
theorem shownTokens_policy (policy : ErrorPolicy) (debug : Bool) (es : DiskSuper) :
    (shownTokens policy debug es.sErrors).foldl nextPolicy (defaultPolicy es) = policy := by
  have debugs : ∀ policy, (if debug then [MountToken.debug] else []).foldl nextPolicy policy = policy := by
    intro policy
    cases debug <;> rfl
  unfold shownTokens policyTokens defaultPolicy
  rw [List.foldl_append, debugs]
  cases policy with
  | cont => rfl
  | panic => rfl
  | ro =>
    by_cases panics : es.sErrors = errorsPanic
    · simp only [panics, true_or, if_true]
      rfl
    · by_cases continues : es.sErrors = errorsContinue
      · simp only [continues, or_true, if_true]
        rfl
      · simp only [panics, continues, or_false, if_false]
        rfl

theorem optionWords_shown {shown : List MountToken} (known : ∀ token ∈ shown, token ≠ .unknown) :
    optionWords (shown.flatMap fun token => ',' :: tokenWord token) = shown.map tokenWord := by
  have plain : ∀ token, ',' ∉ tokenWord token := by
    intro token
    cases token <;> decide
  have some : ∀ token, token ≠ .unknown → tokenWord token ≠ [] := by
    intro token known
    cases token with
    | unknown => exact absurd rfl known
    | _ => decide
  -- the text begins with a delimiter, so the first word is empty
  have split : ∀ w : List Char, ',' ∉ w → ∀ shown : List MountToken,
      (w ++ shown.flatMap fun token => ',' :: tokenWord token).splitOn ',' = w :: shown.map tokenWord := by
    intro w pure shown
    induction shown generalizing w with
    | nil =>
      rw [List.flatMap_nil, List.append_nil]
      exact List.splitOn_eq_singleton pure
    | cons token shown ih =>
      rw [List.flatMap_cons, List.cons_append, List.splitOn_append_cons_self_of_not_mem pure, ih _ (plain token)]
      rfl
  have all := split [] List.not_mem_nil shown
  rw [List.nil_append] at all
  unfold optionWords
  rw [all, List.filter_cons_of_neg (by simp), List.filter_eq_self]
  intro word member
  obtain ⟨token, shownToken, rfl⟩ := List.mem_map.mp member
  exact decide_eq_true (some token (known token shownToken))

/-- The shown options, given to a mount of the same volume, set the same options. -/
theorem showOptions_parse (policy : ErrorPolicy) (debug : Bool) (es : DiskSuper) :
    parseText (some (ext2ShowOptions (.ofPolicy policy debug) es.sErrors)) (.ofPolicy (defaultPolicy es) false) =
      some (.ofPolicy policy debug) := by
  obtain ⟨none, debugs⟩ := shownTokens_known policy debug es.sErrors
  have known : ∀ token ∈ shownTokens policy debug es.sErrors, token ≠ .unknown := fun token member same =>
    none (same ▸ member)
  have matched : ∀ token, token ≠ .unknown → matchToken (tokenWord token) = some token := by
    intro token known
    cases token with
    | unknown => exact absurd rfl known
    | _ => decide
  have read : textTokens (some (ext2ShowOptions (.ofPolicy policy debug) es.sErrors)) =
      some (shownTokens policy debug es.sErrors) := by
    unfold textTokens
    rw [showOptions_tokens, Option.elim_some, optionWords_shown known]
    generalize shownTokens policy debug es.sErrors = shown at known
    induction shown with
    | nil => rfl
    | cons token shown ih =>
      rw [List.map_cons, List.mapM_cons, matched token (known token List.mem_cons_self),
        ih fun other member => known other (List.mem_cons_of_mem _ member)]
      rfl
  rw [parseText_tokens, read, Option.bind_some, parseOptions_policy, if_neg none, shownTokens_policy]
  simp only [debugs, Bool.false_or, Bool.decide_eq_true]

/-! ### Runs -/

/-- A step that also notes the options given since the mount, those of refused remounts left out. -/
def noteOptions (s : FsState × List MountToken) (e : FsEvent) : FsState × List MountToken :=
  (s.1.step e,
    match s.1, e with
    | .unmounted _, .mount _ options => options
    | .mounted fs, .remount _ options => if (parseOptions options fs.sMountOpt).isSome then s.2 ++ options else s.2
    | _, _ => s.2)

def givenOptions (es : DiskSuper) (events : List FsEvent) : List MountToken :=
  (events.foldl noteOptions (.unmounted es, [])).2

/-- The options of `fs` are those that were given, over the defaults of the super block. -/
structure OptionsSettled (sErrors : UInt16) (given : List MountToken) (fs : MountedFs) : Prop where
  errors : fs.es.sErrors = sErrors
  opt : fs.sMountOpt = .ofPolicy (given.foldl nextPolicy (defaultPolicy fs.es)) (decide (.debug ∈ given))

def StateSettled (sErrors : UInt16) (given : List MountToken) : FsState → Prop
  | .unmounted es => es.sErrors = sErrors
  | .mounting fs | .mounted fs => OptionsSettled sErrors given fs

variable {fs fs' : MountedFs} {sErrors : UInt16} {given : List MountToken}

/-- The options do not change, and the default policy stays. -/
structure SameOptions (fs fs' : MountedFs) : Prop where
  errors : fs'.es.sErrors = fs.es.sErrors
  opt : fs'.sMountOpt = fs.sMountOpt

theorem SameOptions.trans {fs₁ fs₂ fs₃ : MountedFs} (first : SameOptions fs₁ fs₂) (second : SameOptions fs₂ fs₃) :
    SameOptions fs₁ fs₃ := ⟨second.errors.trans first.errors, second.opt.trans first.opt⟩

theorem OptionsSettled.same (settled : OptionsSettled sErrors given fs) (same : SameOptions fs fs') : OptionsSettled sErrors given fs' where
  errors := same.errors.trans settled.errors
  opt := by
    have policy : defaultPolicy fs'.es = defaultPolicy fs.es := by
      unfold defaultPolicy
      rw [same.errors]
    rw [policy, same.opt]
    exact settled.opt

theorem ext2Error_options (fs : MountedFs) : SameOptions fs (ext2Error fs).2 := by
  unfold ext2Error
  simp only [MountedFs.setState]
  split_ifs <;> exact ⟨rfl, rfl⟩

theorem ext2SyncFs_options (fs : MountedFs) : SameOptions fs (ext2SyncFs fs) := by
  unfold ext2SyncFs
  split_ifs <;> exact ⟨rfl, rfl⟩

theorem ext2WriteSuper_options (fs : MountedFs) : SameOptions fs (ext2WriteSuper fs) := by
  unfold ext2WriteSuper
  split_ifs
  · exact ⟨rfl, rfl⟩
  · exact ext2SyncFs_options fs

theorem syncFilesystem_options (fs : MountedFs) : SameOptions fs (syncFilesystem fs) := by
  unfold syncFilesystem
  split_ifs
  · exact ⟨rfl, rfl⟩
  · exact (ext2SyncFs_options fs).trans (ext2SyncFs_options _)

theorem ext2CheckSuper_options (fs : MountedFs) (readOnly : Bool) : SameOptions fs (ext2CheckSuper fs readOnly).2 := by
  unfold ext2CheckSuper
  split_ifs <;> exact ⟨rfl, rfl⟩

theorem finishMount_options (fs : MountedFs) : SameOptions fs (finishMount fs) := by
  unfold finishMount
  simp only
  refine (ext2CheckSuper_options fs fs.rdonly).trans (SameOptions.trans ?_ (ext2WriteSuper_options _))
  split_ifs <;> exact ⟨rfl, rfl⟩

theorem ext2Remount_refused {readOnly : Bool} {options : List MountToken}
    (refused : parseOptions options fs.sMountOpt = none) : ext2Remount readOnly options fs = (-einval, syncFilesystem fs) := by
  unfold ext2Remount
  simp only [(syncFilesystem_options fs).opt, refused]

theorem ext2Remount_taken {readOnly : Bool} {options : List MountToken} {opt : MountOpt}
    (parsed : parseOptions options fs.sMountOpt = some opt) : ∃ fs', ext2Remount readOnly options fs = (0, fs') ∧
      fs'.es.sErrors = fs.es.sErrors ∧ fs'.sMountOpt = opt := by
  have synced := (syncFilesystem_options fs).errors
  rw [← (syncFilesystem_options fs).opt] at parsed
  unfold ext2Remount
  simp only [parsed]
  by_cases unchanged : readOnly = (syncFilesystem fs).rdonly
  · rw [if_pos unchanged]
    exact ⟨_, rfl, synced, rfl⟩
  rw [if_neg unchanged]
  cases readOnly with
  | true =>
    rw [if_pos rfl]
    split_ifs
    · exact ⟨_, rfl, synced, rfl⟩
    · exact ⟨_, rfl, synced, rfl⟩
  | false =>
    rw [if_neg (by decide)]
    have checked := ext2CheckSuper_options { syncFilesystem fs with sMountState := (syncFilesystem fs).es.sState } false
    generalize ext2CheckSuper { syncFilesystem fs with sMountState := (syncFilesystem fs).es.sState } false = result at checked
    have written := ext2WriteSuper_options (if result.1 then result.2 else { result.2 with rdonly := false })
    refine ⟨_, rfl, (written.errors.trans ?_).trans (checked.errors.trans synced), rfl⟩
    split_ifs <;> rfl

/-- A remount takes over its options if it can read them. -/
theorem remount_options (readOnly : Bool) (options : List MountToken) (fs : MountedFs) :
    (remount readOnly options fs).es.sErrors = fs.es.sErrors ∧
      (remount readOnly options fs).sMountOpt = (parseOptions options fs.sMountOpt).getD fs.sMountOpt := by
  unfold remount
  cases parsed : parseOptions options fs.sMountOpt with
  | none =>
    rw [ext2Remount_refused parsed]
    exact ⟨(syncFilesystem_options fs).errors, (syncFilesystem_options fs).opt⟩
  | some opt =>
    obtain ⟨fs', taken, errors, opts⟩ := @ext2Remount_taken fs readOnly options opt parsed
    rw [taken]
    exact ⟨errors, opts⟩

theorem step_settled (s : FsState × List MountToken) (settled : StateSettled sErrors s.2 s.1) (e : FsEvent) :
    StateSettled sErrors (noteOptions s e).2 (noteOptions s e).1 := by
  obtain ⟨s, given⟩ := s
  have failed : ∀ fs, OptionsSettled sErrors given fs → OptionsSettled sErrors given (ext2Error fs).2 := fun fs settled =>
    settled.same (ext2Error_options fs)
  cases s with
  | unmounted es =>
    cases e with
    | mount readOnly options =>
      simp only [noteOptions, FsState.step]
      rw [mountOptions_policy, parseOptions_policy]
      by_cases unknown : MountToken.unknown ∈ options
      · rw [if_pos unknown]
        exact settled
      · rw [if_neg unknown]
        exact ⟨settled, by rw [Bool.false_or]⟩
    | _ => exact settled
  | mounting fs =>
    cases e with
    | readRest fails =>
      cases fails with
      | true => exact settled.errors
      | false => exact OptionsSettled.same settled (finishMount_options fs)
    | error =>
      simp only [noteOptions, FsState.step]
      split_ifs
      · exact (failed fs settled).errors
      · exact failed fs settled
    | _ => exact settled
  | mounted fs =>
    cases e with
    | error =>
      simp only [noteOptions, FsState.step]
      split_ifs
      · exact (failed fs settled).errors
      · exact failed fs settled
    | sync => exact OptionsSettled.same settled (ext2SyncFs_options fs)
    | remount readOnly options =>
      obtain ⟨errors, opt⟩ := remount_options readOnly options fs
      have policy : defaultPolicy (remount readOnly options fs).es = defaultPolicy fs.es := by
        unfold defaultPolicy
        rw [errors]
      have settledFs : OptionsSettled sErrors given fs := settled
      refine ⟨errors.trans settledFs.errors, ?_⟩
      rw [policy, opt]
      simp only [noteOptions]
      rw [settledFs.opt, parseOptions_policy]
      by_cases unknown : MountToken.unknown ∈ options
      · rw [if_pos unknown]
        rfl
      · rw [if_neg unknown]
        simp only [Option.getD_some, Option.isSome_some, if_true, List.foldl_append, List.mem_append, Bool.decide_or]
    | unmount =>
      have settledFs : OptionsSettled sErrors given fs := settled
      simp only [noteOptions, FsState.step, ext2PutSuper, MountedFs.setState]
      split_ifs
      · exact settledFs.errors
      · exact settledFs.errors
    | _ => exact settled

/-- On every run the options in force are those given since the mount: the last error policy among them, or
that of the super block, and `debug` if it was given at all. What `ext2_show_options` shows of them mounts
the volume with the same options again. -/
theorem mount_options_runs (es : DiskSuper) (events : List FsEvent) {fs : MountedFs}
    (mounted : FsState.run es events = .mounted fs) :
    fs.sMountOpt = .ofPolicy ((givenOptions es events).foldl nextPolicy (defaultPolicy es))
      (decide (.debug ∈ givenOptions es events)) ∧
    parseText (some (ext2ShowOptions fs.sMountOpt fs.es.sErrors)) (.ofPolicy (defaultPolicy es) false) =
      some fs.sMountOpt := by
  have noted : ∀ s : FsState × List MountToken, (events.foldl noteOptions s).1 = events.foldl FsState.step s.1 := by
    intro s
    exact (List.foldl_hom Prod.fst fun s e => rfl).symm
  have settled := Runs.foldl_invariant (I := fun s : FsState × List MountToken => StateSettled es.sErrors s.2 s.1)
    (s := (FsState.unmounted es, [])) (fun s e kept => step_settled s kept e) rfl events
  have state : (events.foldl noteOptions (.unmounted es, [])).1 = .mounted fs := (noted _).trans mounted
  simp only [state] at settled
  obtain ⟨errors, opt⟩ := settled
  have policy : defaultPolicy fs.es = defaultPolicy es := by
    unfold defaultPolicy
    rw [errors]
  rw [policy] at opt
  refine ⟨opt, ?_⟩
  rw [opt, errors]
  exact showOptions_parse _ _ es

/-- A volume whose default is to go on is mounted with `errors=panic`, and gets back to `errors=remount-ro`
and `debug` later; an option that is not known is refused. -/
def policyRun : List FsEvent :=
  [.mount false [.errPanic], .readRest false, .remount false [.debug, .errRo], .remount false [.unknown, .errCont]]

theorem mount_options_runs_remounted : ∃ fs, FsState.run ⟨validFs, 0, 1, errorsContinue⟩ policyRun = .mounted fs ∧
    fs.sMountOpt = ⟨true, false, true, false⟩ ∧
    parseText (some ",errors=remount-ro,debug".toList) ⟨false, true, false, false⟩ = some fs.sMountOpt := by
  obtain ⟨opt, shown⟩ := mount_options_runs ⟨validFs, 0, 1, errorsContinue⟩ policyRun rfl
  exact ⟨_, rfl, opt, shown⟩

end OsLab.Ext2
