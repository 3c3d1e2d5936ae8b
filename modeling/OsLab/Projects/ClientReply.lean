import OsLab.Projects.ClientText

/-!
# Replies to the client

What the client does with the bytes that it has read from the server into `server_response`, and
for which replies it stays inside the array and prints nothing that it has not read.
-/

namespace OsLab.Projects
open CText CArray Substrings

/-! ### The branch for the network -/

/-- A call of `read` into `server_response`, which holds whatever it held before. -/
structure Arrival where
  old : List Char
  reply : List Char
  size : old.length = 256
  fits : reply.length ≤ 256

def Arrival.response (a : Arrival) : List Char := a.reply ++ a.old.drop a.reply.length

/-- An entry of `values[]`, with the place of the token that it was parsed from. -/
structure Parsed where
  value : Int
  start : Nat
  stop : Nat
  deriving DecidableEq, Repr

/-- The entries that are printed for `flag == 1`. One that has not been set is `none`. -/
structure Event where
  interval : Option Parsed
  light : Option Parsed
  third : Option Parsed
  timestamp : Option Parsed
  deriving DecidableEq, Repr

def eventOf (values : List Parsed) : Event := ⟨values[0]?, values[1]?, values[2]?, values[3]?⟩

inductive Answer where
  | tryAgain
  | event (e : Event)
  | line (text : List Char)
  | ignored
  deriving DecidableEq, Repr

def tryAgain : List Char := "try again".toList

/-- A terminator is stored at `i`, and once more if something else is found there. -/
def terminateAt (i : Nat) (other : Char) (response : List Char) : Except Fault (List Char) := do
  let response ← store response i nul
  if response[i]? = some other then store response i nul else pure response

def debugRead (debug : Bool) (response : List Char) : Except Fault (Option (List Char)) :=
  if debug then some <$> readText response else pure none

/-- `while (token != NULL && i < 4)`, for the entries that are still free. -/
def parseValues : Nat → Option (Nat × Nat) → List Char → Nat → List Parsed → Except Fault (List Parsed)
  | 0, _, _, _, values => pure values
  | _ + 1, none, _, _, values => pure values
  | free + 1, some (start, stop), response, saved, values => do
    let token ← readText (response.drop start)
    let (next, response, saved) ← strtok ' ' response saved
    parseValues free next response saved (values ++ [⟨atoi token, start, stop⟩])

def readEvent (response : List Char) : Except Fault Event := do
  let (token, response, saved) ← strtok ' ' response 0
  eventOf <$> parseValues 4 token response saved []

def againReply (debug : Bool) (response : List Char) : Except Fault Answer := do
  let response ← terminateAt 10 '\n' response
  let _ ← debugRead debug response
  pure .tryAgain

def eventReply (debug : Bool) (response : List Char) : Except Fault Answer := do
  let response ← terminateAt 22 ' ' response
  let _ ← debugRead debug response
  let e ← readEvent response
  pure (.event e)

/-- The turns of `removeSubstring` are bounded by the array. -/
def lineReply (debug : Bool) (read : Nat) (response : List Char) : Except Fault Answer := do
  let response ← removeSubstring (response.length + 1) response invalidCode
  let response ← store response read nul
  let _ ← debugRead debug response
  let printed ← readText response
  pure (.line printed)

def handleReply (debug : Bool) (flag : Int) (a : Arrival) : Except Fault Answer := do
  if ← startsWith tryAgain a.response then againReply debug a.response
  else if flag = 1 then eventReply debug a.response
  else if flag = 2 then lineReply debug a.reply.length a.response
  else pure .ignored

/-! ### What may be asked of it -/

/-- Nothing is accessed outside the array, and what is printed of `values[]` was parsed from the reply. -/
def HandledSafely (debug : Bool) (flag : Int) (a : Arrival) : Prop :=
  ∃ answer, handleReply debug flag a = .ok answer ∧
    ∀ e, answer = .event e → ∀ entry ∈ [e.interval, e.light, e.third, e.timestamp],
      ∃ p, entry = some p ∧ p.stop ≤ a.reply.length

/-- The text in front of index 22 begins with four words, all of them inside the reply. -/
def FourWords (a : Arrival) : Prop :=
  (words ' ' 4 0 (text (a.response.take 22))).length = 4 ∧
    ∀ w ∈ words ' ' 4 0 (text (a.response.take 22)), w.2 ≤ a.reply.length

theorem Arrival.response_length (a : Arrival) : a.response.length = 256 := by
  have fits := a.fits
  rw [Arrival.response, List.length_append, List.length_drop, a.size]
  omega

theorem store_inside {bytes : List Char} {i : Nat} (inside : i < bytes.length) (c : Char) :
    store bytes i c = .ok (bytes.set i c) :=
  if_pos inside

theorem terminateAt_eq {i : Nat} {other : Char} {response : List Char} (inside : i < response.length)
    (real : other ≠ nul) : terminateAt i other response = .ok (response.set i nul) := by
  unfold terminateAt
  rw [store_inside inside]
  show (if (response.set i nul)[i]? = some other then store (response.set i nul) i nul else pure (response.set i nul)) = _
  rw [List.getElem?_set_self inside, if_neg (by simpa using Ne.symm real)]
  rfl

/-- A terminator that is stored ends the text in front of it. -/
theorem set_nul {response : List Char} {i : Nat} (inside : i < response.length) :
    ∃ rest, response.set i nul = text (response.take i) ++ nul :: rest := by
  rw [List.set_eq_take_append_cons_drop, if_pos inside]
  by_cases earlier : nul ∈ response.take i
  · obtain ⟨rest, split⟩ := text_split earlier
    refine ⟨rest ++ nul :: response.drop (i + 1), ?_⟩
    conv_lhs => rw [split]
    simp only [List.append_assoc, List.cons_append]
  · exact ⟨response.drop (i + 1), by rw [text_of_plain earlier]⟩

theorem debugRead_text (debug : Bool) (s rest : List Char) : ∃ out, debugRead debug (s ++ nul :: rest) = .ok out := by
  cases debug with
  | false => exact ⟨none, rfl⟩
  | true =>
    obtain ⟨out, read⟩ := readText_inside [] s rest (Nat.le_refl 0)
    exact ⟨some out, by rw [debugRead, if_pos rfl]; exact congrArg (some <$> ·) read⟩

/-! ### The tokens of a reply -/

theorem parse_words (free : Nat) {s : List Char} (plain : nul ∉ s) (before rest : List Char) (values : List Parsed) :
    ∃ parsed : List Parsed, parsed.map (fun p => (p.start, p.stop)) = words ' ' free before.length s ∧
      (strtok ' ' (before ++ (s ++ nul :: rest)) before.length >>= fun found =>
        parseValues free found.1 found.2.1 found.2.2 values) = .ok (values ++ parsed) := by
  induction free generalizing s before rest values with
  | zero =>
    refine ⟨[], rfl, ?_⟩
    rcases strtok_text (show ' ' ≠ nul by decide) plain before rest with ⟨-, array, next, found⟩ | more
    · rw [found, List.append_nil]
      rfl
    · obtain ⟨start, stop, before', s', rest', -, -, -, found⟩ := more
      rw [found, List.append_nil]
      rfl
  | succ free ih =>
    rcases strtok_text (show ' ' ≠ nul by decide) plain before rest with ⟨none, array, next, found⟩ | more
    · refine ⟨[], (none _).symm, ?_⟩
      rw [found, List.append_nil]
      rfl
    · obtain ⟨start, stop, before', s', rest', plain', le, listed, found⟩ := more
      obtain ⟨token, read⟩ := readText_inside before' s' rest' le
      obtain ⟨parsed, spans, runs⟩ := ih plain' before' rest' (values ++ [⟨atoi token, start, stop⟩])
      refine ⟨⟨atoi token, start, stop⟩ :: parsed, ?_, ?_⟩
      · rw [listed, List.map_cons, spans]
      · rw [found]
        show (readText (List.drop start _) >>= fun token => _) = _
        rw [read]
        refine runs.trans ?_
        rw [List.append_assoc]
        rfl

/-- The four entries are set from the first four tokens. -/
theorem entries_iff {values : List Parsed} (few : values.length ≤ 4) (m : Nat) :
    (∀ entry ∈ [(eventOf values).interval, (eventOf values).light, (eventOf values).third, (eventOf values).timestamp],
      ∃ p, entry = some p ∧ p.stop ≤ m) ↔
    (values.map fun p => (p.start, p.stop)).length = 4 ∧ ∀ w ∈ values.map fun p => (p.start, p.stop), w.2 ≤ m := by
  simp only [eventOf, List.length_map, List.forall_mem_map, List.forall_mem_cons]
  constructor
  · intro set
    obtain ⟨first, second, third, fourth, -⟩ := set
    have entry : ∀ i < 4, ∃ p, values[i]? = some p ∧ p.stop ≤ m
      | 0, _ => first
      | 1, _ => second
      | 2, _ => third
      | 3, _ => fourth
    have length : 3 < values.length := (List.getElem?_eq_some_iff.mp fourth.choose_spec.1).1
    refine ⟨by omega, fun p member => ?_⟩
    obtain ⟨i, inside, rfl⟩ := List.getElem_of_mem member
    obtain ⟨p, found, stop⟩ := entry i (by omega)
    obtain rfl := Option.some.inj ((List.getElem?_eq_getElem inside).symm.trans found)
    exact stop
  · intro all
    obtain ⟨length, inside⟩ := all
    have entry : ∀ i < 4, ∃ p, values[i]? = some p ∧ p.stop ≤ m := by
      intro i less
      have within : i < values.length := by omega
      exact ⟨values[i], List.getElem?_eq_getElem within, inside _ (List.getElem_mem within)⟩
    exact ⟨entry 0 (by decide), entry 1 (by decide), entry 2 (by decide), entry 3 (by decide), nofun⟩

theorem readEvent_words {t : List Char} (plain : nul ∉ t) (rest : List Char) : ∃ values : List Parsed,
    (values.map fun p => (p.start, p.stop)) = words ' ' 4 0 t ∧ readEvent (t ++ nul :: rest) = .ok (eventOf values) := by
  obtain ⟨values, spans, runs⟩ := parse_words 4 plain [] rest []
  refine ⟨values, spans, ?_⟩
  have parsed : (strtok ' ' (t ++ nul :: rest) 0 >>= fun found =>
      parseValues 4 found.1 found.2.1 found.2.2 []) = .ok values := runs
  unfold readEvent
  cases first : strtok ' ' (t ++ nul :: rest) 0 with
  | error fault =>
    rw [first] at parsed
    cases parsed
  | ok found =>
    rw [first] at parsed
    exact congrArg (eventOf <$> ·) parsed

/-! ### Which replies are handled safely -/

theorem handleReply_eq (debug : Bool) (flag : Int) (a : Arrival) : handleReply debug flag a =
    if tryAgain <+: a.response then againReply debug a.response
    else if flag = 1 then eventReply debug a.response
    else if flag = 2 then lineReply debug a.reply.length a.response
    else .ok .ignored := by
  have long : tryAgain.length ≤ a.response.length := by
    rw [a.response_length]
    decide
  unfold handleReply
  rw [startsWith_long long]
  by_cases again : tryAgain <+: a.response
  · rw [decide_eq_true again, if_pos again]
    rfl
  · rw [decide_eq_false again, if_neg again]
    rfl

theorem againReply_eq (debug : Bool) (a : Arrival) : againReply debug a.response = .ok .tryAgain := by
  have inside : 10 < a.response.length := by rw [a.response_length]; decide
  obtain ⟨rest, terminated⟩ := set_nul inside
  obtain ⟨printed, read⟩ := debugRead_text debug (text (a.response.take 10)) rest
  unfold againReply
  rw [terminateAt_eq inside (by decide), terminated]
  show (debugRead debug _ >>= fun _ => pure Answer.tryAgain) = _
  rw [read]
  rfl

theorem eventReply_eq (debug : Bool) (a : Arrival) : ∃ values : List Parsed,
    (values.map fun p => (p.start, p.stop)) = words ' ' 4 0 (text (a.response.take 22)) ∧
      eventReply debug a.response = .ok (.event (eventOf values)) := by
  have inside : 22 < a.response.length := by rw [a.response_length]; decide
  obtain ⟨rest, terminated⟩ := set_nul inside
  obtain ⟨values, spans, runs⟩ := readEvent_words (text_plain (a.response.take 22)) rest
  obtain ⟨printed, read⟩ := debugRead_text debug (text (a.response.take 22)) rest
  refine ⟨values, spans, ?_⟩
  unfold eventReply
  rw [terminateAt_eq inside (by decide), terminated]
  show (debugRead debug _ >>= fun _ => readEvent _ >>= fun e => pure (Answer.event e)) = _
  rw [read]
  show (readEvent _ >>= fun e => pure (Answer.event e)) = _
  rw [runs]
  rfl

theorem removed_length {response : List Char} (ends : nul ∈ response) :
    ∃ out, removeSubstring (response.length + 1) response invalidCode = .ok out ∧ out.length = response.length := by
  obtain ⟨rest, split⟩ := text_split ends
  obtain ⟨junk, length, runs⟩ := removeLoop_text (by decide : nul ∉ invalidCode) (by decide) (text_plain response)
  generalize text response = s at *
  subst split
  have enough : (s ++ nul :: rest).length + 1 > s.length := by
    rw [List.length_append]
    omega
  refine ⟨_, runs _ enough [] rest, ?_⟩
  simp only [List.nil_append, List.length_append, List.length_cons]
  omega

theorem lineReply_ok (debug : Bool) {a : Arrival} (small : a.reply.length < 256) (ends : nul ∈ a.response) :
    ∃ printed, lineReply debug a.reply.length a.response = .ok (.line printed) := by
  obtain ⟨out, removed, length⟩ := removed_length ends
  have inside : a.reply.length < out.length := by rwa [length, a.response_length]
  obtain ⟨rest, terminated⟩ := set_nul inside
  obtain ⟨shown, read⟩ := debugRead_text debug (text (out.take a.reply.length)) rest
  obtain ⟨printed, line⟩ := readText_inside [] (text (out.take a.reply.length)) rest (Nat.le_refl 0)
  refine ⟨printed, ?_⟩
  unfold lineReply
  rw [removed]
  show (store out a.reply.length nul >>= fun response => debugRead debug response >>= fun _ =>
    readText response >>= fun printed => pure (Answer.line printed)) = _
  rw [store_inside inside, terminated]
  show (debugRead debug _ >>= fun _ => readText _ >>= fun printed => pure (Answer.line printed)) = _
  rw [read]
  show (readText _ >>= fun printed => pure (Answer.line printed)) = _
  rw [show readText (text (out.take a.reply.length) ++ nul :: rest) = .ok printed from line]
  rfl

theorem lineReply_fault (debug : Bool) {a : Arrival} (wrong : ¬ (a.reply.length < 256 ∧ nul ∈ a.response))
    (answer : Answer) : lineReply debug a.reply.length a.response ≠ .ok answer := by
  unfold lineReply
  by_cases ends : nul ∈ a.response
  · obtain ⟨out, removed, length⟩ := removed_length ends
    have outside : ¬ a.reply.length < out.length := by
      rw [length, a.response_length]
      exact fun small => wrong ⟨small, ends⟩
    rw [removed]
    show (store out a.reply.length nul >>= fun _ => _) ≠ _
    rw [store, if_neg outside]
    exact nofun
  · cases removed : removeSubstring (a.response.length + 1) a.response invalidCode with
    | error fault => exact nofun
    | ok out => exact absurd removed (removeSubstring_unterminated ends _ out)

theorem handled_iff (debug : Bool) (flag : Int) (a : Arrival) :
    HandledSafely debug flag a ↔ tryAgain <+: a.response ∨
      ((flag = 1 → FourWords a) ∧ (flag = 2 → a.reply.length < 256 ∧ nul ∈ a.response)) := by
  unfold HandledSafely
  rw [handleReply_eq]
  split_ifs with again one two
  · rw [againReply_eq]
    exact iff_of_true ⟨_, rfl, nofun⟩ (Or.inl again)
  · obtain ⟨values, spans, handled⟩ := eventReply_eq debug a
    have few : values.length ≤ 4 := by
      have length := congrArg List.length spans
      rw [List.length_map] at length
      rw [length]
      exact words_length_le ..
    have words : (∃ answer, eventReply debug a.response = .ok answer ∧ ∀ e, answer = .event e →
        ∀ entry ∈ [e.interval, e.light, e.third, e.timestamp], ∃ p, entry = some p ∧ p.stop ≤ a.reply.length) ↔
        FourWords a := by
      rw [FourWords, ← spans, ← entries_iff few, handled]
      constructor
      · intro safe
        obtain ⟨answer, same, entries⟩ := safe
        obtain rfl := Except.ok.inj same
        exact entries _ rfl
      · intro entries
        refine ⟨_, rfl, fun e same => ?_⟩
        obtain rfl := Answer.event.inj same
        exact entries
    rw [words]
    constructor
    · exact fun four => Or.inr ⟨fun _ => four, fun two => by omega⟩
    · exact fun fine => (fine.resolve_left again).1 one
  · by_cases right : a.reply.length < 256 ∧ nul ∈ a.response
    · obtain ⟨printed, handled⟩ := lineReply_ok debug right.1 right.2
      exact iff_of_true ⟨_, handled, nofun⟩ (Or.inr ⟨fun same => absurd same one, fun _ => right⟩)
    · refine iff_of_false (fun safe => ?_) fun fine => right ((fine.resolve_left again).2 two)
      obtain ⟨answer, handled, -⟩ := safe
      exact lineReply_fault debug right answer handled
  · exact iff_of_true ⟨_, rfl, nofun⟩ (Or.inr ⟨fun same => absurd same one, fun same => absurd same two⟩)

/-- The server closes, and `server_response` is still zero. -/
def endOfFile : Arrival := ⟨List.replicate 256 nul, [], List.length_replicate, Nat.zero_le 256⟩

theorem empty_reply_prints_unset : ¬ ∀ debug flag a, HandledSafely debug flag a := by
  intro always
  obtain ⟨answer, handled, set⟩ := always false 1 endOfFile
  have other : ¬ tryAgain <+: endOfFile.response := by
    intro starts
    obtain ⟨rest, whole⟩ := starts
    have head : some 't' = some nul := congrArg List.head? whole
    exact absurd head (by decide)
  obtain ⟨values, spans, event⟩ := eventReply_eq false endOfFile
  have none : text (endOfFile.response.take 22) = [] := rfl
  rw [none, words_nil (by rfl)] at spans
  obtain rfl := List.map_eq_nil_iff.mp spans
  rw [handleReply_eq, if_neg other, if_pos rfl, event] at handled
  obtain rfl := Except.ok.inj handled
  obtain ⟨p, unset, -⟩ := set _ rfl _ List.mem_cons_self
  cases unset

end OsLab.Projects
