import OsLab.Foundation.CText

/-!
# Input of the job parent

How `project3` checks its arguments and the lines that it reads, and which lines it misreads.
-/

namespace OsLab.Projects
open CText

/-! ### Arguments -/

def roundRobin : List Char := "--round-robin".toList
def random : List Char := "--random".toList

def usage : String := "Usage: ask3 <nChildren> [--random] [--round-robin]"

/-- The prompt that is left by `check_argument_errors`. -/
def checkArgumentErrors (argv : List (List Char)) : Except String (List Char) :=
  match argv with
  | [_, nChildren] => if nChildren.all Char.isDigit then .ok roundRobin else .error usage
  | [_, nChildren, prompt] =>
    if !nChildren.all Char.isDigit then .error usage
    else if prompt ≠ roundRobin ∧ prompt ≠ random then .error usage
    else .ok prompt
  | _ => .error usage

/-! ### Lines -/

inductive InputCheck where
  | help
  | exit
  | returned (value : Nat) (message : Option String)
  deriving DecidableEq, Repr

def typeANumber : String := "Type a number to send a job to a child"

/-- What `check_input` returns, unless it ends the program. -/
def InputCheck.ret : InputCheck → Option Nat
  | .help => some 1
  | .exit => none
  | .returned value _ => some value

/-- The last newline is overwritten by a NUL. -/
def stripNewline (line : List Char) : List Char := if line.getLast? = some '\n' then line.dropLast else line

/-- The loop over the characters, which returns in its first turn. -/
def digitsLoop : List Char → InputCheck
  | [] => .returned 1 none
  | c :: _ => if !c.isDigit then .returned 1 typeANumber else .returned 0 none

def checkInput (line : List Char) : InputCheck :=
  let input := text (stripNewline line)
  if line.length ≤ 5 ∧ "help".toList <+: input then .help
  else if line.length ≤ 5 ∧ "exit".toList <+: input then .exit
  else digitsLoop input

/-- A line is read as what it says. -/
structure ReadRightly (line : List Char) : Prop where
  job : (checkInput line).ret = some 0 ↔ stripNewline line ≠ [] ∧ ∀ c ∈ stripNewline line, c.isDigit
  help : checkInput line = .help → stripNewline line = "help".toList
  exit : checkInput line = .exit → stripNewline line = "exit".toList

/-- A digit comes first and something else behind it. -/
def DigitFirst (line : List Char) : Prop :=
  ∃ c rest, stripNewline line = c :: rest ∧ c.isDigit ∧ ∃ d ∈ rest, ¬ d.isDigit

/-- A command's word and one byte more, which is no newline. -/
def WordAndByte (line : List Char) : Prop :=
  line.length = 5 ∧ line.getLast? ≠ some '\n' ∧ ("help".toList <+: line ∨ "exit".toList <+: line)

/-! ### What the checks amount to -/

theorem digitsLoop_returns (input : List Char) : ∃ value message, digitsLoop input = .returned value message := by
  unfold digitsLoop
  split
  · exact ⟨_, _, rfl⟩
  · split_ifs
    · exact ⟨_, _, rfl⟩
    · exact ⟨_, _, rfl⟩

theorem help_iff (line : List Char) :
    checkInput line = .help ↔ line.length ≤ 5 ∧ "help".toList <+: stripNewline line := by
  rw [← prefix_text (by decide) (stripNewline line)]
  unfold checkInput
  simp only
  split_ifs with help exit
  · exact iff_of_true rfl help
  · exact iff_of_false (by decide) help
  · obtain ⟨value, message, returned⟩ := digitsLoop_returns (text (stripNewline line))
    rw [returned]
    exact iff_of_false (by simp) help

theorem exit_iff (line : List Char) :
    checkInput line = .exit ↔ line.length ≤ 5 ∧ "exit".toList <+: stripNewline line := by
  rw [← prefix_text (by decide) (stripNewline line)]
  unfold checkInput
  simp only
  split_ifs with help exit
  · refine iff_of_false (by decide) fun exit => ?_
    obtain ⟨rest, same⟩ := help.2
    obtain ⟨rest', same'⟩ := exit.2
    rw [← same] at same'
    exact absurd (List.cons.inj same').1 (by decide)
  · exact iff_of_true rfl exit
  · obtain ⟨value, message, returned⟩ := digitsLoop_returns (text (stripNewline line))
    rw [returned]
    exact iff_of_false (by simp) exit

theorem text_head (bytes : List Char) {c : Char} (digit : c.isDigit) : (text bytes).head? = some c ↔ bytes.head? = some c := by
  have some : c ≠ nul := by
    intro same
    rw [same] at digit
    exact absurd digit (by decide)
  cases bytes with
  | nil => exact Iff.rfl
  | cons b bytes =>
    by_cases ends : b = nul
    · subst ends
      rw [text_nul]
      exact iff_of_false (by simp) (by simpa using Ne.symm some)
    · rw [text_cons bytes ends]
      exact Iff.rfl

theorem head_starts {c : Char} {word bytes : List Char} (starts : c :: word <+: bytes) : bytes.head? = some c := by
  obtain ⟨rest, rfl⟩ := starts
  rfl

/-- A line is a job as soon as its first byte is a digit. -/
theorem accepted_iff (line : List Char) :
    (checkInput line).ret = some 0 ↔ ∃ c, (stripNewline line).head? = some c ∧ c.isDigit := by
  have letter : ∀ {c : Char} {word : List Char}, ¬ c.isDigit → c :: word <+: text (stripNewline line) →
      ¬ ∃ d, (stripNewline line).head? = some d ∧ d.isDigit := by
    intro c word other starts digit
    obtain ⟨d, first, digit⟩ := digit
    have same := ((text_head _ digit).mpr first).symm.trans (head_starts starts)
    obtain rfl := Option.some.inj same
    exact other digit
  unfold checkInput
  simp only
  split_ifs with help exit
  · exact iff_of_false (by decide) (letter (by decide) help.2)
  · exact iff_of_false (by decide) (letter (by decide) exit.2)
  · cases input : text (stripNewline line) with
    | nil =>
      refine iff_of_false (by decide) fun digit => ?_
      obtain ⟨d, first, digit⟩ := digit
      rw [← text_head _ digit, input] at first
      cases first
    | cons c rest =>
      cases digit : c.isDigit with
      | false =>
        have refused : digitsLoop (c :: rest) = .returned 1 (some typeANumber) := by simp [digitsLoop, digit]
        rw [refused]
        refine iff_of_false (by decide) fun digit' => ?_
        obtain ⟨d, first, digit'⟩ := digit'
        rw [← text_head _ digit', input] at first
        obtain rfl := Option.some.inj first
        exact absurd (digit.symm.trans digit') (by decide)
      | true =>
        have accepted : digitsLoop (c :: rest) = .returned 0 none := by simp [digitsLoop, digit]
        rw [accepted]
        refine iff_of_true rfl ⟨c, ?_, digit⟩
        rw [← text_head _ digit, input]
        rfl

/-- The lines that are jobs, up to the one that ends the program. -/
def acceptedLines (lines : List (List Char)) : List (List Char) :=
  (lines.takeWhile fun line => (checkInput line).ret.isSome).filter fun line => (checkInput line).ret = some 0

theorem accepted_exit {line : List Char} (lines : List (List Char)) (exit : (checkInput line).ret = none) :
    acceptedLines (line :: lines) = [] := by
  simp [acceptedLines, exit]

theorem accepted_job {line : List Char} (lines : List (List Char)) (job : (checkInput line).ret = some 0) :
    acceptedLines (line :: lines) = line :: acceptedLines lines := by
  simp [acceptedLines, job]

theorem accepted_refused {line : List Char} (lines : List (List Char)) {value : Nat}
    (refused : (checkInput line).ret = some value) (other : value ≠ 0) :
    acceptedLines (line :: lines) = acceptedLines lines := by
  simp [acceptedLines, refused, other]

/-! ### Lines that are misread -/

/-- Of four letters, or five without a newline at the end. -/
theorem word_cases {line word : List Char} (four : word.length = 4) (short : line.length ≤ 5)
    (starts : word <+: stripNewline line) :
    stripNewline line = word ∨ (line.length = 5 ∧ line.getLast? ≠ some '\n' ∧ word <+: line) := by
  unfold stripNewline at starts ⊢
  split_ifs at starts ⊢ with newline
  · have length := starts.length_le
    rw [List.length_dropLast] at length
    exact Or.inl (starts.eq_of_length (by rw [List.length_dropLast]; omega)).symm
  · rcases Nat.lt_or_ge line.length 5 with less | five
    · exact Or.inl (starts.eq_of_length (by have length := starts.length_le; omega)).symm
    · exact Or.inr ⟨by omega, newline, starts⟩

theorem word_and_byte {line word : List Char} (four : word.length = 4) (five : line.length = 5)
    (other : line.getLast? ≠ some '\n') (starts : word <+: line) :
    word <+: stripNewline line ∧ stripNewline line ≠ word := by
  unfold stripNewline
  rw [if_neg other]
  refine ⟨starts, fun same => ?_⟩
  rw [same] at five
  omega

theorem read_rightly_iff (line : List Char) : ReadRightly line ↔ ¬ DigitFirst line ∧ ¬ WordAndByte line := by
  constructor
  · intro right
    refine ⟨fun misread => ?_, fun misread => ?_⟩
    · obtain ⟨c, rest, stripped, digit, d, member, other⟩ := misread
      have accepted := (accepted_iff line).mpr ⟨c, by rw [stripped]; rfl, digit⟩
      exact other ((right.job.mp accepted).2 d (stripped ▸ List.mem_cons_of_mem c member))
    · obtain ⟨five, other, help | exit⟩ := misread
      · obtain ⟨starts, differ⟩ := word_and_byte rfl five other help
        exact differ (right.help ((help_iff line).mpr ⟨Nat.le_of_eq five, starts⟩))
      · obtain ⟨starts, differ⟩ := word_and_byte rfl five other exit
        exact differ (right.exit ((exit_iff line).mpr ⟨Nat.le_of_eq five, starts⟩))
  · intro fine
    obtain ⟨notFirst, notWord⟩ := fine
    refine ⟨?_, fun help => ?_, fun exit => ?_⟩
    · rw [accepted_iff]
      constructor
      · intro accepted
        obtain ⟨c, first, digit⟩ := accepted
        obtain ⟨rest, stripped⟩ := List.head?_eq_some_iff.mp first
        refine ⟨by rw [stripped]; exact List.cons_ne_nil _ _, fun d member => ?_⟩
        by_contra other
        rw [stripped] at member
        rcases List.mem_cons.mp member with rfl | behind
        · exact other digit
        · exact notFirst ⟨c, rest, stripped, digit, d, behind, other⟩
      · intro number
        obtain ⟨some, digits⟩ := number
        obtain ⟨c, rest, stripped⟩ := List.exists_cons_of_ne_nil some
        exact ⟨c, by rw [stripped]; rfl, digits c (stripped ▸ List.mem_cons_self)⟩
    · obtain ⟨short, starts⟩ := (help_iff line).mp help
      rcases word_cases rfl short starts with same | longer
      · exact same
      · exact absurd ⟨longer.1, longer.2.1, Or.inl longer.2.2⟩ notWord
    · obtain ⟨short, starts⟩ := (exit_iff line).mp exit
      rcases word_cases rfl short starts with same | longer
      · exact same
      · exact absurd ⟨longer.1, longer.2.1, Or.inr longer.2.2⟩ notWord

theorem digit_then_letter_accepted : ¬ ReadRightly "1a\n".toList := by
  intro right
  have digits := (right.job.mp rfl).2 'a' (by decide)
  exact absurd digits (by decide)

end OsLab.Projects
