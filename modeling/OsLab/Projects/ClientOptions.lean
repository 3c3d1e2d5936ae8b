import OsLab.Foundation.CText

/-!
# Arguments of the client

How `main` of the TCP client reads its arguments, with one loop for each number of them, and what
the arguments say.
-/

namespace OsLab.Projects
open CText

/-! ### The loops -/

def hostWord : List Char := "--host".toList
def portWord : List Char := "--port".toList
def debugWord : List Char := "--debug".toList

/-- The six bytes of `--debug` that are compared. -/
def debugStart : List Char := "--debu".toList

structure Settings where
  host : List Char
  port : Int
  debug : Bool
  deriving DecidableEq, Repr

def defaults : Settings := ⟨"iot.dslab.pub.ds.open-cloud.xyz".toList, 18080, false⟩

def Settings.setHost (value : List Char) (s : Settings) : Settings := { s with host := value }
def Settings.setPort (value : List Char) (s : Settings) : Settings := { s with port := atoi value }

/-- What an option's branch prints when it ends the program: behind another option, with a value that it does not take,
and without a value. -/
structure Messages where
  taken : String
  bad : String
  missing : String

/-- In what the loops differ: whether they test `arg_flag`, whether a wrong value ends the program, whether they know
`--debug`, what they print, and the count that they ask for. -/
structure OptionLoop where
  once : Bool
  strict : Bool
  debug : Bool
  hostMessages : Messages
  portMessages : Messages
  count : Nat

structure Scan where
  settings : Settings
  count : Nat
  argFlag : Bool

/-- The branch for an option with a value. The value may not begin with the word of the other such option. -/
def takeValue (loop : OptionLoop) (messages : Messages) (word other : List Char)
    (set : List Char → Settings → Settings) (arg : List Char) (next : Option (List Char)) (s : Scan) :
    Except String Scan :=
  if arg = word then
    match next with
    | some value =>
      if ¬ other <+: value ∧ ¬ debugStart <+: value then
        if loop.once ∧ s.argFlag then .error messages.taken
        else .ok ⟨set value s.settings, s.count + 1, loop.once || s.argFlag⟩
      else if loop.strict then .error messages.bad else .ok s
    | none => if loop.strict then .error messages.missing else .ok s
  else .ok s

def takeDebug (loop : OptionLoop) (arg : List Char) (s : Scan) : Scan :=
  if loop.debug ∧ arg = debugWord then { s with settings := { s.settings with debug := true }, count := s.count + 1 }
  else s

def optionStep (loop : OptionLoop) (arg : List Char) (next : Option (List Char)) (s : Scan) : Except String Scan := do
  let s ← takeValue loop loop.hostMessages hostWord portWord Settings.setHost arg next s
  let s ← takeValue loop loop.portMessages portWord hostWord Settings.setPort arg next s
  pure (takeDebug loop arg s)

/-- The loop over `argv`, from `argv[0]` on. -/
def optionLoop (loop : OptionLoop) : List (List Char) → Scan → Except String Scan
  | [], s => .ok s
  | arg :: rest, s => do
    let s ← optionStep loop arg rest.head? s
    optionLoop loop rest s

def OptionLoop.run (loop : OptionLoop) (argv : List (List Char)) : Except String Settings := do
  let s ← optionLoop loop argv ⟨defaults, 0, false⟩
  if s.count ≠ loop.count then .error "wrong args" else .ok s.settings

def wrongArgs : Messages := ⟨"wrong args", "wrong args", "wrong args"⟩
def wrongArgsNumbered : Messages := ⟨"wrong args 1", "wrong args 2", "wrong args 3"⟩

def loopSix : OptionLoop := ⟨false, true, true, wrongArgs, wrongArgs, 3⟩
def loopFive : OptionLoop := ⟨false, true, false, wrongArgs, wrongArgs, 2⟩
def loopFour : OptionLoop := ⟨true, false, true, wrongArgs, wrongArgs, 2⟩
def loopThree : OptionLoop := ⟨true, true, false, wrongArgsNumbered, wrongArgs, 1⟩

/-- `main` up to the call of `gethostbyname`. -/
def clientArguments (argv : List (List Char)) : Except String Settings :=
  if 6 < argv.length then .error "argc is larger than 4"
  else if argv.length = 6 then loopSix.run argv
  else if argv.length = 5 then loopFive.run argv
  else if argv.length = 4 then loopFour.run argv
  else if argv.length = 3 then loopThree.run argv
  else if argv.length = 2 then
    if argv[1]? ≠ some debugWord then .error "Argv[1] is incorrect" else .ok { defaults with debug := true }
  else .ok defaults

/-! ### Arrangements -/

inductive Choice where
  | host (value : List Char)
  | port (value : List Char)
  | debug
  deriving DecidableEq, Repr

namespace Choice

/-- The word of its option. -/
def word : Choice → List Char
  | .host _ => hostWord
  | .port _ => portWord
  | .debug => debugWord

def value : Choice → Option (List Char)
  | .host value => some value
  | .port value => some value
  | .debug => none

def words (c : Choice) : List (List Char) := c.word :: c.value.toList

def apply (s : Settings) : Choice → Settings
  | .host value => s.setHost value
  | .port value => s.setPort value
  | .debug => { s with debug := true }

end Choice

/-- No option's name comes first. -/
def PlainValue (value : List Char) : Prop := ¬ hostWord <+: value ∧ ¬ portWord <+: value ∧ ¬ debugWord <+: value

/-- The arguments are the choices one after another, each option at most once. -/
structure Arranges (choices : List Choice) (args : List (List Char)) : Prop where
  words : args = choices.flatMap Choice.words
  once : (choices.map Choice.word).Nodup
  plain : ∀ c ∈ choices, ∀ value, c.value = some value → PlainValue value

/-- The client connects exactly for arrangements, with what they give and defaults for the rest. -/
def ReadsArguments (name : List Char) (args : List (List Char)) : Prop :=
  ∀ s, clientArguments (name :: args) = .ok s ↔ ∃ choices, Arranges choices args ∧ s = choices.foldl Choice.apply defaults

end OsLab.Projects
