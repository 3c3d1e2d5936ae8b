import OsLab.Projects.ClientOptions

/-!
# Arguments that the client reads

What the loops see in an argument vector, and when they accept it.
-/

namespace OsLab.Projects
open CText

/-! ### What a loop sees -/

/-- An option that is taken, one without a value that may be taken, or something else. -/
inductive Seen where
  | choice (c : Choice)
  | bad
  | other
  deriving DecidableEq, Repr

def lookValue (make : List Char → Choice) (other : List Char) (next : Option (List Char)) : Seen :=
  match next with
  | some value => if ¬ other <+: value ∧ ¬ debugStart <+: value then .choice (make value) else .bad
  | none => .bad

def look (arg : List Char) (next : Option (List Char)) : Seen :=
  if arg = hostWord then lookValue .host portWord next
  else if arg = portWord then lookValue .port hostWord next
  else if arg = debugWord then .choice .debug
  else .other

def looks : List (List Char) → List Seen
  | [] => []
  | arg :: rest => look arg rest.head? :: looks rest

def Seen.choice? : Seen → Option Choice
  | .choice c => some c
  | _ => none

/-- The loop knows the option. -/
def OptionLoop.knows (loop : OptionLoop) (c : Choice) : Bool := loop.debug || c.value.isSome

/-- The options that a loop counts among what it sees. -/
def OptionLoop.counted (loop : OptionLoop) (seens : List Seen) : List Choice :=
  (seens.filterMap Seen.choice?).filter loop.knows

/-- The words are those that the loop asks for, and none of them ends the program. -/
structure OptionLoop.Passes (loop : OptionLoop) (seens : List Seen) : Prop where
  good : loop.strict → .bad ∉ seens
  once : loop.once → (loop.counted seens).countP (·.value.isSome) ≤ 1
  count : (loop.counted seens).length = loop.count

def seenStep (loop : OptionLoop) (s : Scan) : Seen → Option Scan
  | .other => some s
  | .bad => if loop.strict then none else some s
  | .choice c =>
    if ¬ loop.knows c then some s
    else if c.value.isSome ∧ loop.once ∧ s.argFlag then none
    else some ⟨c.apply s.settings, s.count + 1, (loop.once && c.value.isSome) || s.argFlag⟩

theorem takeValue_seen {loop : OptionLoop} {make : List Char → Choice} (set : List Char → Settings → Settings)
    (sets : ∀ value s, (make value).apply s = set value s) (valued : ∀ value, (make value).value = some value)
    (messages : Messages) (word other : List Char) (next : Option (List Char)) (s : Scan) :
    (takeValue loop messages word other set word next s).toOption = seenStep loop s (lookValue make other next) := by
  unfold takeValue lookValue
  rw [if_pos rfl]
  cases next with
  | none =>
    simp only [seenStep]
    split_ifs <;> rfl
  | some value =>
    simp only
    split_ifs with good taken strict
    · simp [seenStep, OptionLoop.knows, valued, taken, Except.toOption]
    · simp [seenStep, OptionLoop.knows, valued, sets, taken, Except.toOption]
    · simp [seenStep, strict, Except.toOption]
    · simp [seenStep, strict, Except.toOption]

theorem takeValue_other {loop : OptionLoop} {messages : Messages} {word other arg : List Char}
    {set : List Char → Settings → Settings} {next : Option (List Char)} (differ : arg ≠ word) (s : Scan) :
    takeValue loop messages word other set arg next s = .ok s :=
  if_neg differ

theorem takeDebug_other {loop : OptionLoop} {arg : List Char} (differ : arg ≠ debugWord) (s : Scan) :
    takeDebug loop arg s = s :=
  if_neg fun same => differ same.2

theorem optionStep_seen (loop : OptionLoop) (arg : List Char) (next : Option (List Char)) (s : Scan) :
    (optionStep loop arg next s).toOption = seenStep loop s (look arg next) := by
  unfold optionStep look
  split_ifs with host port debug
  · subst host
    rw [← takeValue_seen Settings.setHost (fun _ _ => rfl) (fun _ => rfl) loop.hostMessages hostWord portWord next s]
    cases takeValue loop loop.hostMessages hostWord portWord Settings.setHost hostWord next s with
    | error message => rfl
    | ok t =>
      show (takeValue loop loop.portMessages portWord hostWord Settings.setPort hostWord next t >>= fun s =>
        pure (takeDebug loop hostWord s)).toOption = _
      rw [takeValue_other (by decide)]
      exact congrArg some (takeDebug_other (by decide) t)
  · subst port
    rw [takeValue_other host, ← takeValue_seen Settings.setPort (fun _ _ => rfl) (fun _ => rfl) loop.portMessages portWord
      hostWord next s]
    show (takeValue loop loop.portMessages portWord hostWord Settings.setPort portWord next s >>= fun s =>
      pure (takeDebug loop portWord s)).toOption = _
    cases takeValue loop loop.portMessages portWord hostWord Settings.setPort portWord next s with
    | error message => rfl
    | ok t => exact congrArg some (takeDebug_other (by decide) t)
  · subst debug
    rw [takeValue_other host]
    show (takeValue loop loop.portMessages portWord hostWord Settings.setPort debugWord next s >>= fun s =>
      pure (takeDebug loop debugWord s)).toOption = _
    rw [takeValue_other port]
    show some (takeDebug loop debugWord s) = _
    cases known : loop.debug with
    | false => simp [takeDebug, seenStep, OptionLoop.knows, known, Choice.value]
    | true => simp [takeDebug, seenStep, OptionLoop.knows, known, Choice.value, Choice.apply]
  · rw [takeValue_other host]
    show (takeValue loop loop.portMessages portWord hostWord Settings.setPort arg next s >>= fun s =>
      pure (takeDebug loop arg s)).toOption = _
    rw [takeValue_other port]
    exact congrArg some (takeDebug_other debug s)

theorem optionLoop_seen (loop : OptionLoop) (argv : List (List Char)) (s : Scan) :
    (optionLoop loop argv s).toOption = (looks argv).foldlM (seenStep loop) s := by
  induction argv generalizing s with
  | nil => rfl
  | cons arg rest ih =>
    rw [looks, List.foldlM_cons, ← optionStep_seen, optionLoop]
    cases optionStep loop arg rest.head? s with
    | error message => rfl
    | ok t => exact ih t

theorem counted_cons (loop : OptionLoop) (seen : Seen) (seens : List Seen) :
    loop.counted (seen :: seens) =
      match seen with
      | .choice c => if loop.knows c then c :: loop.counted seens else loop.counted seens
      | _ => loop.counted seens := by
  cases seen with
  | choice c => simp [OptionLoop.counted, Seen.choice?, List.filter_cons]
  | bad => rfl
  | other => rfl

theorem seen_fold (loop : OptionLoop) (seens : List Seen) (s t : Scan) :
    seens.foldlM (seenStep loop) s = some t ↔
      (loop.strict → .bad ∉ seens) ∧
        (loop.once → (loop.counted seens).countP (·.value.isSome) + s.argFlag.toNat ≤ 1) ∧
        t = ⟨(loop.counted seens).foldl Choice.apply s.settings, s.count + (loop.counted seens).length,
          (loop.once && (loop.counted seens).any (·.value.isSome)) || s.argFlag⟩ := by
  induction seens generalizing s with
  | nil =>
    have start : (⟨s.settings, s.count + 0, (loop.once && false) || s.argFlag⟩ : Scan) = s := by
      rw [Bool.and_false, Bool.false_or]
      rfl
    constructor
    · intro done
      refine ⟨fun _ => List.not_mem_nil, fun _ => ?_, (Option.some.inj done).symm.trans start.symm⟩
      exact (Nat.zero_add _).trans_le (Bool.toNat_le s.argFlag)
    · exact fun done => congrArg some (start.symm.trans done.2.2.symm)
  | cons seen seens ih =>
    rw [List.foldlM_cons, counted_cons]
    cases seen with
    | other => simp [seenStep, ih]
    | bad =>
      cases strict : loop.strict with
      | false => simp [seenStep, strict, ih]
      | true => simp [seenStep, strict]
    | choice c =>
      cases known : loop.knows c with
      | false => simp [seenStep, known, ih]
      | true =>
        cases once : loop.once <;> cases valued : c.value.isSome <;> cases flag : s.argFlag <;>
          simp [seenStep, known, once, valued, flag, ih, Nat.add_assoc, Nat.add_comm 1]

/-- The loop accepts exactly what passes, with the options that it counts. -/
theorem run_iff (loop : OptionLoop) (argv : List (List Char)) (settings : Settings) :
    loop.run argv = .ok settings ↔
      loop.Passes (looks argv) ∧ settings = (loop.counted (looks argv)).foldl Choice.apply defaults := by
  have seen := optionLoop_seen loop argv ⟨defaults, 0, false⟩
  have fold := fun t => seen_fold loop (looks argv) ⟨defaults, 0, false⟩ t
  unfold OptionLoop.run
  cases scan : optionLoop loop argv ⟨defaults, 0, false⟩ with
  | error message =>
    rw [scan] at seen
    refine iff_of_false nofun fun passed => ?_
    have found := (fold _).mpr ⟨passed.1.good, passed.1.once, rfl⟩
    rw [← seen] at found
    cases found
  | ok t =>
    rw [scan] at seen
    obtain ⟨good, once, same⟩ := (fold t).mp seen.symm
    have count : t.count = (loop.counted (looks argv)).length := by rw [same, Nat.zero_add]
    show (if t.count ≠ loop.count then .error "wrong args" else .ok t.settings) = Except.ok settings ↔ _
    split_ifs with wrong
    · exact iff_of_false nofun fun passed => wrong (count.trans passed.1.count)
    · rw [same]
      constructor
      · exact fun done => ⟨⟨good, once, count.symm.trans (not_not.mp wrong)⟩, (Except.ok.inj done).symm⟩
      · exact fun passed => congrArg Except.ok passed.2.symm

end OsLab.Projects
