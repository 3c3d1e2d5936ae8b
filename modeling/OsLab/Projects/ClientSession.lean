import Mathlib.Data.List.Forall2
import OsLab.Foundation.Lines
import OsLab.Foundation.Runs
import OsLab.Projects.ClientReply
import OsLab.Projects.JobInput

/-!
# Sessions of the client

The loop of the client between the standard input and the server: what the server can read back of
what was typed, and which request the client takes a reply to be for.
-/

namespace OsLab.Projects.Client
open CText CArray Runs Lines

def help : List Char := "help".toList
def exit : List Char := "exit".toList
def getWord : List Char := "get".toList

/-! ### The loop -/

/-- A call of `read` into `buffer`, which holds whatever it held before. -/
structure Typed where
  old : List Char
  read : List Char
  size : old.length = 101
  fits : read.length ≤ 100

/-- The buffer with its NUL, and the newline at its end taken away. -/
def Typed.buffer (t : Typed) : Except CArray.Fault (List Char) := do
  let buffer ← store (t.read ++ t.old.drop t.read.length) t.read.length nul
  if 0 < t.read.length ∧ buffer[t.read.length - 1]? = some '\n' then store buffer (t.read.length - 1) nul else pure buffer

/-- What `select` answers, with what comes of it. -/
inductive Input where
  | selectFails
  | typed (t : Typed) (writes : Bool)
  | typedFails
  | arrived (a : Arrival)
  | arrivedFails

/-- `ended` is the exit code. -/
structure Session where
  flag : Int
  sent : List Char
  answers : List Answer
  ended : Option Int

def Session.start : Session := ⟨0, [], [], none⟩

/-- `n_read >= strlen(word) && strncmp(buffer, word, strlen(word)) == 0` -/
def begins (n : Nat) (word buffer : List Char) : Except CArray.Fault Bool :=
  if word.length ≤ n then startsWith word buffer else pure false

def request (s : Session) (flag : Int) (buffer : List Char) (writes : Bool) : Session :=
  if writes then { s with sent := s.sent ++ buffer, flag := flag } else { s with ended := some 1 }

/-- A turn of the loop. The standard input goes first. -/
def clientRound (debug : Bool) (s : Session) : Input → Except CArray.Fault Session
  | .selectFails => pure { s with ended := some 1 }
  | .typed t writes => do
    let buffer ← t.buffer
    let _ ← debugRead debug buffer
    if ← begins t.read.length exit buffer then pure { s with ended := some 0 }
    else if ← begins t.read.length help buffer then pure s
    else if ← begins t.read.length getWord buffer then pure (request s 1 buffer writes)
    else pure (request s 2 buffer writes)
  | .typedFails => pure { s with ended := some 1 }
  | .arrived a => do
    let answer ← handleReply debug s.flag a
    pure { s with answers := s.answers ++ [answer] }
  | .arrivedFails => pure { s with ended := some 1 }

def Session.Step (debug : Bool) (s : Session) (i : Input) (t : Session) : Prop := s.ended = none ∧ clientRound debug s i = .ok t

/-! ### What it says -/

/-- What was typed, up to a NUL. -/
def Typed.command (t : Typed) : List Char := text (stripNewline t.read)

/-- The command that is sent to the server. -/
def Input.command : Input → Option (List Char)
  | .typed t true => if exit <+: t.command ∨ help <+: t.command then none else some t.command
  | _ => none

/-- The exit code that the input ends the client with. -/
def Input.ending : Input → Option Int
  | .typed t writes =>
    if exit <+: t.command then some 0 else if help <+: t.command then none else if writes then none else some 1
  | .arrived _ => none
  | .selectFails | .typedFails | .arrivedFails => some 1

/-- 1 for measurements and 2 for any other request. -/
def kindOf (command : List Char) : Int := if getWord <+: command then 1 else 2

/-- The kind of the last request, if there is one. -/
def lastKind (commands : List (List Char)) : Int := (commands.getLast?.map kindOf).getD 0

/-- The replies, each with the kind of the last request that was sent before it came. -/
def replies : List (List Char) → List Input → List (Int × Arrival)
  | _, [] => []
  | commands, .arrived a :: rest => (lastKind commands, a) :: replies commands rest
  | commands, i :: rest => replies (commands ++ i.command.toList) rest

/-- What was read for a command that is sent. -/
def Input.sentRead : Input → Option (List Char)
  | .typed t true => if exit <+: t.command ∨ help <+: t.command then none else some t.read
  | _ => none

/-- Reads of a terminal: they end where the line ends or after 100 characters. -/
def Typewritten (reads : List (List Char)) : Prop := ∀ r ∈ reads, Piece '\n' 100 r ∧ nul ∉ r

/-! ### One turn -/

theorem Typed.command_eq (t : Typed) {r : List Char} (newline : t.read = r ++ ['\n']) : t.command = text r := by
  rw [Typed.command, newline]
  exact congrArg text (bare_stop r)

/-- The buffer holds the command and its NUL. -/
theorem Typed.buffer_eq (t : Typed) :
    ∃ record rest, t.buffer = .ok record ∧ record.length = 101 ∧ record = t.command ++ nul :: rest := by
  have fits := t.fits
  have size : (t.read ++ t.old.drop t.read.length).length = 101 := by
    rw [List.length_append, List.length_drop, t.size]
    omega
  have inside : t.read.length < (t.read ++ t.old.drop t.read.length).length := by omega
  unfold Typed.buffer
  rw [store_inside inside]
  by_cases newline : t.read.getLast? = some '\n'
  · obtain ⟨r, same⟩ := List.getLast?_eq_some_iff.mp newline
    have ended : (t.read ++ t.old.drop t.read.length).set t.read.length nul =
        r ++ '\n' :: (t.old.drop t.read.length).set 0 nul := by
      rw [List.set_append_right _ _ (Nat.le_refl _), Nat.sub_self, same, List.append_assoc, List.singleton_append]
    have place : t.read.length - 1 = r.length := by
      rw [same, List.length_append, List.length_singleton, Nat.add_sub_cancel]
    have within : r.length < (r ++ '\n' :: (t.old.drop t.read.length).set 0 nul).length := by
      rw [List.length_append, List.length_cons]
      exact Nat.lt_add_of_pos_right (Nat.succ_pos _)
    obtain ⟨rest, stripped⟩ := set_nul within
    rw [List.take_left] at stripped
    refine ⟨(r ++ '\n' :: (t.old.drop t.read.length).set 0 nul).set r.length nul, rest, ?_, ?_, ?_⟩
    · have positive : 0 < t.read.length := by
        rw [same, List.length_append]
        exact Nat.succ_pos _
      show (if _ then store _ (t.read.length - 1) nul else pure _) = _
      rw [ended, place, store_inside within, if_pos ⟨positive, by simp⟩]
    · rw [List.length_set, ← ended, List.length_set, size]
    · rw [t.command_eq same]
      exact stripped
  · obtain ⟨rest, ended⟩ := set_nul inside
    rw [List.take_left] at ended
    have command : t.command = text t.read := congrArg text (if_neg newline)
    refine ⟨_, rest, ?_, (List.length_set ..).trans size, by rw [command]; exact ended⟩
    show (if _ then store _ _ nul else pure _) = _
    refine if_neg fun ⟨positive, last⟩ => newline ?_
    rw [List.getElem?_set_ne (by omega), List.getElem?_append_left (by omega)] at last
    rw [List.getLast?_eq_getElem?]
    exact last

theorem Typed.command_le (t : Typed) : t.command.length ≤ t.read.length := by
  refine (List.takeWhile_prefix _).length_le.trans ?_
  rw [stripNewline]
  split_ifs
  · rw [List.length_dropLast]
    exact Nat.sub_le _ _
  · exact Nat.le_refl _

theorem begins_eq {n : Nat} {word command : List Char} (plain : nul ∉ word) (fits : command.length ≤ n) (rest : List Char) :
    begins n word (command ++ nul :: rest) = .ok (decide (word <+: command)) := by
  unfold begins
  split_ifs with short
  · exact startsWith_text plain command rest
  · refine congrArg Except.ok (decide_eq_false fun starts => short ?_).symm
    exact starts.length_le.trans fits

/-- What a turn makes of the standard input. It does not leave the array. -/
theorem round_typed (debug : Bool) (s : Session) (t : Typed) (writes : Bool) :
    ∃ record, record.length = 101 ∧ text record = t.command ∧ clientRound debug s (.typed t writes) = .ok
      (if exit <+: t.command then { s with ended := some 0 }
      else if help <+: t.command then s else request s (kindOf t.command) record writes) := by
  obtain ⟨record, rest, buffered, size, rfl⟩ := t.buffer_eq
  obtain ⟨out, shown⟩ := debugRead_text debug t.command rest
  refine ⟨_, size, text_terminated (text_plain _) rest, ?_⟩
  have begun : ∀ word, nul ∉ word →
      begins t.read.length word (t.command ++ nul :: rest) = .ok (decide (word <+: t.command)) :=
    fun word plain => begins_eq plain t.command_le rest
  simp only [clientRound, buffered, shown, begun exit (by decide), begun help (by decide), begun getWord (by decide), bind,
    Except.bind, decide_eq_true_eq, kindOf]
  split_ifs <;> rfl

/-! ### Sessions -/

theorem command_kept {t : Typed} (kept : exit <+: t.command ∨ help <+: t.command) (writes : Bool) :
    (Input.typed t writes).command = none := by
  cases writes with
  | false => rfl
  | true => exact if_pos kept

theorem lastKind_concat (commands : List (List Char)) (c : List Char) : lastKind (commands ++ [c]) = kindOf c := by
  rw [lastKind, List.getLast?_concat]
  rfl

/-- What the inputs add to a session, and where it stands then. -/
structure Follows (debug : Bool) (commands : List (List Char)) (s : Session) (inputs : List Input) (t : Session) : Prop where
  sent : ∃ records : List (List Char), t.sent = s.sent ++ records.flatten ∧ (∀ r ∈ records, r.length = 101) ∧
    records.map text = inputs.filterMap Input.command
  flag : t.flag = lastKind (commands ++ inputs.filterMap Input.command)
  answers : ∃ answers, t.answers = s.answers ++ answers ∧
    List.Forall₂ (fun reply answer => handleReply debug reply.1 reply.2 = .ok answer) (replies commands inputs) answers

section
variable {debug : Bool} {commands : List (List Char)} {s t u : Session} {i : Input} {inputs more : List Input}

theorem replies_append (commands : List (List Char)) (inputs more : List Input) :
    replies commands (inputs ++ more) = replies commands inputs ++ replies (commands ++ inputs.filterMap Input.command) more := by
  induction inputs generalizing commands with
  | nil => simp only [List.nil_append, replies, List.filterMap_nil, List.append_nil]
  | cons i inputs ih =>
    have split : (i :: inputs).filterMap Input.command = i.command.toList ++ inputs.filterMap Input.command := by
      rw [List.filterMap_cons]
      cases i.command <;> rfl
    rw [split, ← List.append_assoc]
    cases i with
    | arrived a => simp only [List.cons_append, replies, ih, Input.command, Option.toList_none, List.append_nil]
    | selectFails | typed | typedFails | arrivedFails => simp only [List.cons_append, replies, ih]

theorem Follows.append (first : Follows debug commands s inputs t)
    (second : Follows debug (commands ++ inputs.filterMap Input.command) t more u) :
    Follows debug commands s (inputs ++ more) u := by
  obtain ⟨records, sent, sizes, same⟩ := first.sent
  obtain ⟨records', sent', sizes', same'⟩ := second.sent
  obtain ⟨answers, shown, each⟩ := first.answers
  obtain ⟨answers', shown', each'⟩ := second.answers
  refine ⟨⟨records ++ records', ?_, fun r member => ?_, ?_⟩, ?_, answers ++ answers', ?_, ?_⟩
  · rw [sent', sent, List.flatten_append, List.append_assoc]
  · exact (List.mem_append.mp member).elim (sizes r) (sizes' r)
  · rw [List.map_append, same, same', List.filterMap_append]
  · rw [second.flag, List.filterMap_append, List.append_assoc]
  · rw [shown', shown, List.append_assoc]
  · rw [replies_append]
    exact List.rel_append each each'

/-- An input that sends nothing and is no reply. -/
theorem follows_idle (silent : i.command = none) (noReply : replies commands [i] = []) (flag : s.flag = lastKind commands)
    (same : t.sent = s.sent ∧ t.flag = s.flag ∧ t.answers = s.answers) : Follows debug commands s [i] t where
  sent := ⟨[], by rw [same.1, List.flatten_nil, List.append_nil], by simp, by rw [List.filterMap_cons_none silent]; rfl⟩
  flag := by rw [List.filterMap_cons_none silent, List.filterMap_nil, List.append_nil, same.2.1, flag]
  answers := ⟨[], by rw [same.2.2, List.append_nil], by rw [noReply]; exact .nil⟩

theorem step_follows (flag : s.flag = lastKind commands) (step : Session.Step debug s i t) :
    Follows debug commands s [i] t ∧ t.ended = i.ending := by
  obtain ⟨running, round⟩ := step
  cases i with
  | typed typed writes =>
    obtain ⟨record, size, same, done⟩ := round_typed debug s typed writes
    obtain rfl := Except.ok.inj (round.symm.trans done)
    by_cases leaves : exit <+: typed.command
    · rw [if_pos leaves]
      exact ⟨follows_idle (command_kept (Or.inl leaves) writes) rfl flag ⟨rfl, rfl, rfl⟩, (if_pos leaves).symm⟩
    by_cases helps : help <+: typed.command
    · have running : s.ended = (Input.typed typed writes).ending := by
        rw [Input.ending, if_neg leaves, if_pos helps, running]
      rw [if_neg leaves, if_pos helps]
      exact ⟨follows_idle (command_kept (Or.inr helps) writes) rfl flag ⟨rfl, rfl, rfl⟩, running⟩
    rw [if_neg leaves, if_neg helps]
    have ending : (Input.typed typed writes).ending = if writes then none else some 1 := by
      rw [Input.ending, if_neg leaves, if_neg helps]
    rw [ending]
    cases writes with
    | false => exact ⟨follows_idle rfl rfl flag ⟨rfl, rfl, rfl⟩, rfl⟩
    | true =>
      have sends : (Input.typed typed true).command = some typed.command := if_neg (not_or.mpr ⟨leaves, helps⟩)
      refine ⟨⟨⟨[record], ?_, by simpa using size, ?_⟩, ?_, [], (List.append_nil _).symm, .nil⟩, running⟩
      · rw [List.flatten_singleton]
        rfl
      · rw [List.filterMap_cons_some sends, List.filterMap_nil, List.map_singleton, same]
      · rw [List.filterMap_cons_some sends, List.filterMap_nil, lastKind_concat]
        rfl
  | selectFails | typedFails =>
    obtain rfl := Except.ok.inj round
    exact ⟨follows_idle rfl rfl flag ⟨rfl, rfl, rfl⟩, rfl⟩
  | arrived a =>
    cases handled : handleReply debug s.flag a with
    | error fault =>
      simp only [clientRound, handled] at round
      cases round
    | ok answer =>
      simp only [clientRound, handled] at round
      obtain rfl := Except.ok.inj round
      refine ⟨⟨⟨[], (List.append_nil _).symm, by simp, rfl⟩, ?_, [answer], rfl, .cons ?_ .nil⟩, running⟩
      · exact flag.trans (congrArg lastKind (List.append_nil commands).symm)
      · rw [← flag]
        exact handled
  | arrivedFails =>
    obtain rfl := Except.ok.inj round
    exact ⟨follows_idle rfl rfl flag ⟨rfl, rfl, rfl⟩, rfl⟩

/-- The client takes no input behind the one that ends it. -/
theorem Follows.run (steps : Steps (Session.Step debug) s inputs t) {commands : List (List Char)}
    (flag : s.flag = lastKind commands) :
    Follows debug commands s inputs t ∧
      ∀ before i after, inputs = before ++ i :: after → i.ending ≠ none → after = [] ∧ t.ended = i.ending := by
  induction steps generalizing commands with
  | nil =>
    refine ⟨⟨⟨[], by simp, by simp, rfl⟩, by simpa using flag, [], by simp, .nil⟩, fun before i after same => ?_⟩
    exact absurd same.symm (by simp)
  | @cons s s' t first rest step more ih =>
    obtain ⟨one, ended⟩ := step_follows flag step
    obtain ⟨others, last⟩ := ih one.flag
    refine ⟨one.append others, fun before i after same ends => ?_⟩
    cases before with
    | nil =>
      obtain ⟨rfl, rfl⟩ := List.cons.inj same
      cases more with
      | nil => exact ⟨rfl, ended⟩
      | cons next _ => exact absurd (ended.symm.trans next.1) ends
    | cons first before => exact last before i after (List.cons.inj same).2 ends

theorem bare_plain {read : List Char} (plain : nul ∉ read) : text (stripNewline read) = bare '\n' read := by
  refine text_of_plain fun member => plain ?_
  rw [stripNewline] at member
  split_ifs at member
  · exact List.dropLast_subset read member
  · exact member

theorem command_sentRead (i : Input) : i.command = i.sentRead.map fun read => text (stripNewline read) := by
  cases i with
  | typed t writes =>
    cases writes with
    | false => rfl
    | true =>
      show (if _ then none else some t.command) = Option.map _ (if _ then none else some t.read)
      split_ifs <;> rfl
  | selectFails | typedFails | arrived | arrivedFails => rfl

/-- The lines of what was sent, from the commands. -/
theorem Typewritten.whole (typewritten : Typewritten (inputs.filterMap Input.sentRead)) :
    glue 100 [] (inputs.filterMap Input.command) = lines '\n' [] (inputs.filterMap Input.sentRead).flatten := by
  have commands : inputs.filterMap Input.command = (inputs.filterMap Input.sentRead).map (bare '\n') := by
    calc inputs.filterMap Input.command
        = inputs.filterMap fun i => i.sentRead.map fun read => text (stripNewline read) :=
          congrArg (List.filterMap · inputs) (funext command_sentRead)
      _ = (inputs.filterMap Input.sentRead).map fun read => text (stripNewline read) := List.map_filterMap.symm
      _ = (inputs.filterMap Input.sentRead).map (bare '\n') :=
          List.map_congr_left fun read member => bare_plain (typewritten read member).2
  rw [commands]
  exact glue_bare (fun read member => (typewritten read member).1) []

end

/-- Over any run of the client, with the inputs in any order: what it sends can be cut into records of 101 bytes, and up to its
first NUL each of them is a command that was typed, in order and none lost. If the reads of these commands come from a
terminal, gluing the records of 100 characters to the next ones gives the lines of what was read, however long. A reply is
always taken for one to the last request sent before it came. The client ends with the first input that ends it. -/
theorem session_run {debug : Bool} {inputs : List Input} {t : Session} (steps : Steps (Session.Step debug) .start inputs t) :
    (∃ records : List (List Char), t.sent = records.flatten ∧ (∀ r ∈ records, r.length = 101) ∧
      records.map text = inputs.filterMap Input.command ∧
      (Typewritten (inputs.filterMap Input.sentRead) →
        glue 100 [] (records.map text) = lines '\n' [] (inputs.filterMap Input.sentRead).flatten)) ∧
    t.flag = lastKind (inputs.filterMap Input.command) ∧
    List.Forall₂ (fun reply answer => handleReply debug reply.1 reply.2 = .ok answer) (replies [] inputs) t.answers ∧
    ∀ before i after, inputs = before ++ i :: after → i.ending ≠ none → after = [] ∧ t.ended = i.ending := by
  have flag : Session.start.flag = lastKind [] := rfl
  obtain ⟨follows, ends⟩ := Follows.run steps flag
  obtain ⟨records, sent, sizes, same⟩ := follows.sent
  obtain ⟨answers, shown, each⟩ := follows.answers
  refine ⟨⟨records, sent, sizes, same, fun typewritten => ?_⟩, follows.flag, ?_, ends⟩
  · rw [same]
    exact typewritten.whole
  · rw [shown]
    exact each

def typedLine (read : List Char) (fits : read.length ≤ 100) : Typed :=
  ⟨List.replicate 101 'x', read, List.length_replicate, fits⟩

def longLine : List Char := List.replicate 100 'a'

theorem tryAgain_fits : tryAgain.length ≤ 256 := by decide

def tryAgainReply : Arrival := ⟨endOfFile.old, tryAgain, endOfFile.size, tryAgain_fits⟩

/-- A line of 102 characters in two reads, a piece that is not sent, a reply and the end. -/
def longSession : List Input :=
  [.typed (typedLine longLine (by decide)) true, .typed (typedLine "help!\n".toList (by decide)) true,
    .typed (typedLine "bc\n".toList (by decide)) true, .arrived tryAgainReply,
    .typed (typedLine "exit\n".toList (by decide)) true]

theorem step_typed {debug : Bool} {s : Session} (t : Typed) (running : s.ended = none) :
    ∃ u, Session.Step debug s (.typed t true) u ∧ (¬ exit <+: t.command → u.ended = none) := by
  obtain ⟨record, -, -, round⟩ := round_typed debug s t true
  refine ⟨_, ⟨running, round⟩, fun stays => ?_⟩
  rw [if_neg stays]
  split_ifs <;> exact running

theorem tryAgain_handled (flag : Int) : handleReply false flag tryAgainReply = .ok .tryAgain := by
  have again : tryAgain <+: tryAgainReply.response := List.prefix_append _ _
  rw [handleReply_eq, if_pos again, againReply_eq]

theorem longSession_read : longSession.filterMap Input.sentRead = [longLine, "bc\n".toList] := by decide +kernel

theorem longSession_typewritten : Typewritten (longSession.filterMap Input.sentRead) := by
  rw [longSession_read]
  refine List.forall_mem_cons.mpr ⟨⟨⟨longLine, by decide, Or.inr ⟨rfl, by decide⟩⟩, by decide⟩, ?_⟩
  exact List.forall_mem_singleton.mpr ⟨⟨"bc".toList, by decide, Or.inl ⟨by decide, by decide⟩⟩, by decide⟩

theorem session_run_long :
    ∃ t, Steps (Session.Step false) .start longSession t ∧ t.flag = 2 ∧ t.answers = [.tryAgain] ∧ t.ended = some 0 ∧
      ∃ records : List (List Char), t.sent = records.flatten ∧ glue 100 [] (records.map text) = [longLine ++ ['b', 'c']] := by
  obtain ⟨s₁, first, ended₁⟩ := @step_typed false .start (typedLine longLine (by decide)) rfl
  obtain ⟨s₂, second, ended₂⟩ := @step_typed false s₁ (typedLine "help!\n".toList (by decide)) (ended₁ (by decide))
  obtain ⟨s₃, third, ended₃⟩ := @step_typed false s₂ (typedLine "bc\n".toList (by decide)) (ended₂ (by decide))
  have reply : Session.Step false s₃ (.arrived tryAgainReply) { s₃ with answers := s₃.answers ++ [.tryAgain] } := by
    refine ⟨ended₃ (by decide), ?_⟩
    rw [clientRound, tryAgain_handled]
    rfl
  obtain ⟨t, last, -⟩ := @step_typed false { s₃ with answers := s₃.answers ++ [.tryAgain] }
    (typedLine "exit\n".toList (by decide)) reply.1
  have steps : Steps (Session.Step false) .start longSession t :=
    .cons first (.cons second (.cons third (.cons reply (.cons last (.nil t)))))
  obtain ⟨⟨records, sent, -, -, lines⟩, flag, answers, ends⟩ := session_run steps
  have replied : replies [] longSession = [(2, tryAgainReply)] := rfl
  rw [replied] at answers
  obtain ⟨answer, rest, handled, none, same⟩ := List.forall₂_cons_left_iff.mp answers
  rw [tryAgain_handled] at handled
  obtain rfl := Except.ok.inj handled
  obtain rfl := List.forall₂_nil_left_iff.mp none
  have ended := (ends (longSession.take 4) _ [] rfl (by decide)).2
  refine ⟨t, steps, flag.trans (by decide +kernel), same, ended.trans (by decide), records, sent, ?_⟩
  rw [lines longSession_typewritten, longSession_read]
  decide +kernel

end OsLab.Projects.Client
