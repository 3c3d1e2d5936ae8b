import Mathlib.Logic.Function.Basic
import OsLab.Projects.JobInput

/-!
# The job parent

`main` of `project3` in the parent: the children it creates, and the lines it turns into jobs
for them. Every index into `pid_array` is recorded.
-/

namespace OsLab.Projects
open CText

/-- What the system answers. A child's number is positive, and not that of an earlier child, none of which is waited for. -/
structure Environment where
  pipe : Nat → Bool
  fork : Nat → Int
  rand : Nat → Nat
  children : ∀ i, 0 ≤ fork i → 0 < fork i ∧ ∀ j < i, fork j ≠ fork i

inductive Ending where
  | failure
  | exit
  | outOfBounds
  | moduloByZero
  | overflow
  deriving DecidableEq, Repr

/-- A value written to the pipe `in[child]` for the job of that number. -/
structure PipeWrite where
  job : Nat
  child : Nat
  value : Int
  deriving DecidableEq, Repr

structure Parent where
  pidArray : Nat → Int
  sendTo : Int
  iterator : Nat
  jobs : Nat
  rands : Nat
  indexes : List Int
  writes : List PipeWrite
  ending : Option Ending

namespace Parent

def boot : Parent := ⟨fun _ => 0, 0, 0, 0, 0, [], [], none⟩

def stop (ending : Ending) (s : Parent) : Parent := { s with ending := some ending }

def andThen (next : Parent → Parent) (s : Parent) : Parent := if s.ending.isSome then s else next s

/-- `for (int j = i; j < i + n; j++)`, until the program ends. -/
def loop (body : Nat → Parent → Parent) : Nat → Nat → Parent → Parent
  | 0, _, s => s
  | n + 1, i, s => (body i s).andThen (loop body n (i + 1))

/-- An access to `pid_array[i]`. -/
def access (i : Int) (s : Parent) : Parent :=
  if 0 ≤ i ∧ i < 50 then { s with indexes := s.indexes ++ [i] }
  else { s with indexes := s.indexes ++ [i], ending := some .outOfBounds }

/-! ### Children -/

def createChild (env : Environment) (i : Nat) (s : Parent) : Parent :=
  (s.access i).andThen fun s =>
    let s := { s with pidArray := Function.update s.pidArray i (env.fork i) }
    if env.fork i < 0 then s.stop .failure else s

def create (env : Environment) (digits : Int) (s : Parent) : Parent :=
  if (List.range (2 * digits.toNat)).all env.pipe then loop (createChild env) digits.toNat 0 s else s.stop .failure

def killChild (i : Nat) (s : Parent) : Parent := s.access i

def killAll (digits : Int) (s : Parent) : Parent := (loop killChild digits.toNat 0 s).andThen (stop .exit)

/-! ### Jobs -/

/-- `send_to = pid_array[v % digits]`. -/
def choose (digits : Int) (v : Nat) (s : Parent) : Parent :=
  if digits = 0 then s.stop .moduloByZero
  else (s.access ((v : Int).tmod digits)).andThen fun s =>
    { s with sendTo := s.pidArray ((v : Int).tmod digits).toNat }

def chooseRandom (env : Environment) (digits : Int) (s : Parent) : Parent :=
  choose digits (env.rand s.rands) { s with rands := s.rands + 1 }

def countUp (s : Parent) : Parent :=
  if s.iterator + 1 < 2 ^ 31 then { s with iterator := s.iterator + 1 } else s.stop .overflow

def chooseNext (digits : Int) (s : Parent) : Parent := (choose digits s.iterator s).andThen countUp

def sendChild (value : Int) (i : Nat) (s : Parent) : Parent :=
  (s.access i).andThen fun s =>
    if s.sendTo = s.pidArray i then { s with writes := s.writes ++ [⟨s.jobs, i, value⟩] } else s

def sendAll (digits : Int) (value : Int) (s : Parent) : Parent :=
  (loop (sendChild value) digits.toNat 0 s).andThen fun s => { s with jobs := s.jobs + 1 }

def jobValue (line : List Char) : Int := atoi (text (stripNewline line))

def runJob (env : Environment) (prompt : List Char) (digits : Int) (line : List Char) (s : Parent) : Parent :=
  (((if prompt = random then chooseRandom env digits s else s).andThen
    fun s => if prompt = roundRobin then chooseNext digits s else s).andThen
    (sendAll digits (jobValue line)))

def readLine (env : Environment) (prompt : List Char) (digits : Int) (s : Parent) (line : List Char) : Parent :=
  s.andThen fun s =>
    match (checkInput line).ret with
    | none => s.killAll digits
    | some 0 => s.runJob env prompt digits line
    | some _ => s

end Parent

/-- `int digits = strtol(argv[1], NULL, 10)`. -/
def nChildren (argv : List (List Char)) : Int := toInt (strtol (argv.getD 1 []))

def mainLines (env : Environment) (argv : List (List Char)) (lines : List (List Char)) : Parent :=
  match checkArgumentErrors argv with
  | .error _ => Parent.boot.stop .failure
  | .ok prompt =>
    lines.foldl (Parent.readLine env prompt (nChildren argv)) (Parent.boot.create env (nChildren argv))

end OsLab.Projects
