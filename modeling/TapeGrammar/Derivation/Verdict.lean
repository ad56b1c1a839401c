import TapeGrammar.Production
import TapeGrammar.Text.Quoted

/-!
# Verdicts

The answer to the question whether a grammar derives a word, and the ways in which the question can
remain without an answer.
-/

namespace TapeGrammar

/-! ## 1. Verdicts -/

/-- Where the simulated machine has come to a halt, and the productions applied in all. -/
structure Halt where
  state : String
  /-- The number of machine steps. -/
  steps : Nat
  trace : Trace
  deriving DecidableEq

/-- The answer for one word. -/
inductive Verdict where
  /-- The word is derived; these are the letters left at the end. -/
  | accepted (halt : Halt) (letters : Word)
  /-- The machine has halted outside its final states. -/
  | rejected (halt : Halt)
  deriving DecidableEq

namespace Verdict

/-- What is given as the reason of every rejection. -/
def rejectionReason : String := "not derivable"

/-- Where the machine has halted. -/
def halt : Verdict → Halt
  | .accepted halt _ => halt
  | .rejected halt => halt

/-- Whether the word is derived. -/
def isAccepted : Verdict → Bool
  | .accepted _ _ => true
  | .rejected _ => false

/-- The verdict in one line. -/
def text : Verdict → String
  | .accepted halt letters =>
    s!"Accepted: {String.join letters} (halted in {halt.state} after {halt.steps} steps)"
  | .rejected halt =>
    s!"Rejected: {rejectionReason} (halted in {halt.state} after {halt.steps} steps)"

end Verdict

/-! ## 2. Errors -/

/-- A disagreement between a grammar and its automaton.  It is a defect of the grammar, and says
nothing about the word. -/
inductive Violation where
  /-- The plan asks for a production that is not in the generation table. -/
  | missingProduction (p : Production)
  /-- A production of the plan does not apply. -/
  | stuckProduction (p : Production) (form : Form)
  /-- The symbol under the cursor carries no state. -/
  | noState (cursor : Nat) (form : Form)
  /-- No recovery production replaces the symbol that carries the final state. -/
  | noRecovery (cursor : Nat) (form : Form)
  /-- No copy of the final token has vanished. -/
  | tokenKept (state : String) (form : Form)
  /-- Non-terminals are left after the cleanup. -/
  | nonTerminalsLeft (form : Form)
  /-- Another word than the one in question has been derived. -/
  | otherWord (derived word : Word)
  deriving DecidableEq

/-- The report of a violation. -/
def Violation.message : Violation → String
  | .missingProduction p => "Missing generation production " ++ p.text
  | .stuckProduction p form =>
    "Generation production " ++ p.text ++ " does not apply to " ++ Form.text form
  | .noState cursor form => s!"No state under the cursor at {cursor} in " ++ Form.text form
  | .noRecovery cursor form =>
    s!"No recovery production for the accepting cell at {cursor} in " ++ Form.text form
  | .tokenKept state form => s!"State {state} never collapsed in " ++ Form.text form
  | .nonTerminalsLeft form => "Cleanup left non-terminals in " ++ Form.text form
  | .otherWord derived word =>
    "Derived " ++ String.join derived ++ " instead of " ++ String.join word

/-- Why a check ends without a verdict. -/
inductive CheckError where
  | emptyWord
  /-- Letters of the word that the grammar does not have, in the order of the word. -/
  | foreignLetters (letters : List String)
  /-- The machine needs more steps than it is given. -/
  | stepLimit (limit : Nat)
  | violation (cause : Violation)
  | fault (cause : Fault)
  deriving DecidableEq

/-- The report of a missing verdict.  A fault has none. -/
def CheckError.message : CheckError → String
  | .emptyWord => "Invalid word: the word is empty"
  | .foreignLetters letters =>
    "Invalid word: symbols outside the alphabet: " ++ Text.quotedList letters
  | .stepLimit limit => s!"Step limit of {limit} exceeded"
  | .violation cause => "Internal invariant violated: " ++ cause.message
  | .fault _ => ""

end TapeGrammar
