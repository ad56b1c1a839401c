import TapeGrammar.Automaton
import TapeGrammar.Iteration
import TapeGrammar.Tape

/-!
# Running an automaton on its tape

The direct way to find out what a machine does with a word, without any grammar: a CONFIGURATION is
the state, the tape, the position of the head and the number of steps made, and the machine steps
from configuration to configuration until no move is defined.

A Turing machine starts with its head on the first letter, and cells that have not been written
read as the blank.  A bounded automaton starts with its head on the left marker, and reads nothing
outside its tape.
-/

namespace TapeGrammar

/-! ## 1. Configurations -/

/-- A machine at a moment of its run. -/
structure Configuration where
  state : String
  tape : Tape
  head : Int
  steps : Nat
  deriving DecidableEq

/-- What one step leads to. -/
inductive Progress where
  /-- A move has been made. -/
  | moved
  /-- No move is defined. -/
  | halted
  deriving DecidableEq

/-- Why a run has no outcome. -/
inductive RunError where
  | emptyWord
  /-- The first letter of the word that the automaton does not have. -/
  | foreignLetter (letter : String)
  /-- The machine needs more steps than it is given. -/
  | stepLimit (limit : Nat)
  deriving DecidableEq

/-- The report of a missing outcome. -/
def RunError.message : RunError → String
  | .emptyWord => "Invalid word: the word is empty"
  | .foreignLetter letter => s!"Invalid word: '{letter}' is not an input symbol"
  | .stepLimit limit => s!"Step limit of {limit} exceeded"

/-- How a run ends. -/
structure Outcome where
  state : String
  steps : Nat
  accepted : Bool
  deriving DecidableEq

/-- The outcome in one line. -/
def Outcome.text (outcome : Outcome) : String :=
  (if outcome.accepted then "Accepted" else "Rejected")
    ++ s!" (halted in {outcome.state} after {outcome.steps} steps)"

namespace Configuration

/-- The machine in its start state on a tape without written cells. -/
def initial (a : Automaton) : Configuration := ⟨a.start, .empty, 0, 0⟩

/-- The machine in its start state on a word. -/
def ofWord (a : Automaton) (word : Word) : Configuration :=
  match a.boundary with
  | .blank _ => ⟨a.start, .ofList word, 0, 0⟩
  | .markers left right => ⟨a.start, .ofList (left :: word ++ [right]), 0, 0⟩

/-! ## 2. Steps -/

/-- The symbol at a position: what is written there, or the blank, or nothing. -/
def cell? (a : Automaton) (c : Configuration) (position : Int) : Option String :=
  c.tape.get? position <|> a.blank?

/-- The symbol under the head. -/
def read? (a : Automaton) (c : Configuration) : Option String := c.cell? a c.head

/-- The move that is defined for the state and the symbol under the head. -/
def pending? (a : Automaton) (c : Configuration) : Option Move :=
  (c.read? a).bind (a.move? c.state)

/-- Makes a move: writes, moves the head and enters the next state. -/
def apply (a : Automaton) (c : Configuration) (move : Move) : Configuration where
  state := move.next
  tape := c.tape.write (a.blank?.getD "") c.head move.write
  head := match move.direction with
    | .left => c.head - 1
    | .right => c.head + 1
  steps := c.steps + 1

/-- One step.  The configuration stays as it is if no move is defined. -/
def step (a : Automaton) (c : Configuration) : Progress × Configuration :=
  match c.pending? a with
  | some move => (.moved, c.apply a move)
  | none => (.halted, c)

/-- So many steps, and what the last of them led to.  A machine that has halted stays as it is. -/
def stepTimes (a : Automaton) : (times : Nat) → Configuration → Option Progress × Configuration
  | 0, c => (none, c)
  | times + 1, c =>
    match c.step a with
    | (.halted, c) => (some .halted, c)
    | (.moved, c) => if times = 0 then (some .moved, c) else stepTimes a times c

/-- Whether the machine is in a final state. -/
def isAccepted (a : Automaton) (c : Configuration) : Bool := a.isFinal c.state

/-! ## 3. Runs -/

/-- Why a word cannot be put on the tape: it is empty, or has a letter that the automaton lacks. -/
def wordError? (a : Automaton) (word : Word) : Option RunError :=
  if word.isEmpty then some .emptyWord
  else (word.find? fun letter => !a.inputs.contains letter).map .foreignLetter

/-- Puts a word on the tape and the machine into its start state.  Nothing changes if the word is
refused. -/
def load (a : Automaton) (word : Word) (c : Configuration) : Except RunError Unit × Configuration :=
  match wordError? a word with
  | some error => (.error error, c)
  | none => (.ok (), ofWord a word)

/-- How a machine that has halted ends its run. -/
def outcome (a : Automaton) (c : Configuration) : Outcome := ⟨c.state, c.steps, c.isAccepted a⟩

/-- One round of a run: a step, and a look at the limit. -/
def runRound (a : Automaton) (limit : Option Nat) (c : Configuration) :
    Round Configuration (Except RunError Outcome × Configuration) :=
  match c.step a with
  | (.halted, c) => .done (.ok (c.outcome a), c)
  | (.moved, c) =>
    match limit.filter (· < c.steps) with
    | some limit => .done (.error (.stepLimit limit), c)
    | none => .again c

/-- Steps until the machine halts or needs more steps than the limit allows. -/
def toHalt (a : Automaton) (limit : Option Nat) (fuel : Nat) (c : Configuration) :
    Option (Except RunError Outcome × Configuration) :=
  iterate (fun c => some (runRound a limit c)) fuel c

/-- Runs the machine on a word.  The answer is `none` if the fuel is used up while the machine is
still running.  The machine is left where it stopped; where it was before does not matter. -/
def run (a : Automaton) (limit : Option Nat) (fuel : Nat) (word : Word) (c : Configuration) :
    Option (Except RunError Outcome × Configuration) :=
  match c.load a word with
  | (.error error, c) => some (.error error, c)
  | (.ok (), c) => c.toHalt a limit fuel

/-! ## 4. The written form -/

/-- The symbols of the positions from the first written one to the last, and at least of the one
under the head, which is put in brackets. -/
def text (a : Automaton) (c : Configuration) : String :=
  let first := min c.tape.first c.head
  let last := max c.tape.last c.head
  let symbols := (List.range (last - first + 1).toNat).map fun (i : Nat) =>
    let position := first + (i : Int)
    let symbol := (c.cell? a position).getD " "
    if position = c.head then "[" ++ symbol ++ "]" else symbol
  " ".intercalate symbols

end Configuration

end TapeGrammar
