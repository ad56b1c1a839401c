import TapeGrammar.Derivation.Check
import TapeGrammar.Room
import TapeGrammar.Unary

/-!
# Checks in memory

A check keeps a word, a plan, a form and a trace, and there may be no room for one of them; then it
ends in a fault.  The word and the plan depend on the length of the word only, so it is known before the
first production is applied whether there is room for them.  The trace grows with every production of
an attempt.  From generation on the form is never longer than the trace (`length_form_le_trace`), and a
symbol takes half the room of a production; so whatever there is room for in the trace there is room for
in the form.
-/

namespace TapeGrammar

namespace Derivation

/-- One attempt, with room for a trace of so many productions.  What generation leaves of the room is
one more limit on the steps; a step that exceeds it first is a fault. -/
def attemptWithin (g : Grammar) (room : Nat) (limit : Option Nat) (fuel : Nat) (word : Word)
    (padding : Padding) : Option (Round Padding (Except CheckError Derivation)) :=
  match ofWord g word padding with
  | .error error => some (.done (.error error))
  | .ok generated =>
    if room < generated.trace.length then some (.done (.error (.fault .noRoom)))
    else
      let rest := room - generated.trace.length
      match exceeded limit rest with
      | some limit => attempt g (some limit) fuel word padding
      | none =>
        match attempt g (some rest) fuel word padding with
        | some (.done (.error (.stepLimit _))) => some (.done (.error (.fault .noRoom)))
        | round => round

end Derivation

/-- A verdict, if there is room for its trace. -/
def Verdict.within (room : Nat) (verdict : Verdict) : Except CheckError Verdict :=
  if verdict.halt.trace.length ≤ room then .ok verdict else .error (.fault .noRoom)

/-- The number of steps for which the block of a plan has room in the end.  The letters of the word --
in a context-sensitive grammar those between the first and the last -- are added at once behind what
there is by then, and the step after them doubles the block. -/
def GrammarKind.planBlock : GrammarKind → (length : Nat) → Nat
  | .unrestricted, length => 2 * (length + 3)
  | .contextSensitive, length => 2 * (length - 1)

namespace Grammar

/-- The check with room for a trace of so many productions in each attempt. -/
def checkWithin (g : Grammar) (room : Nat) (limit : Option Nat) (fuel : Nat) (word : Word) :
    Option (Except CheckError Verdict) :=
  match g.wordError? word with
  | some error => some (.error error)
  | none =>
    match Padding.forLength word.length with
    | .error fault => some (.error (.fault fault))
    | .ok padding =>
      match iterate (Derivation.attemptWithin g room limit fuel word) fuel padding with
      | none => none
      | some (.error error) => some (.error error)
      | some (.ok d) =>
        (Derivation.conclude g fuel word d).map fun result => result.bind (Verdict.within room)

/-- Whether there is room for what depends on the word only: the plan, or the list of the letters that
the grammar lacks. -/
def hasRoom (g : Grammar) (word : Word) : Bool :=
  match g.wordError? word with
  | none => g.kind.planBlock word.length ≤ Room.maxPlan
  | some (.foreignLetters letters) => letters.length ≤ Room.maxForeign
  | some _ => true

/-- **Whether the grammar derives a number in unary notation**, in memory. -/
def checkNumber (g : Grammar) (limit : Option Nat) (fuel n : Nat) :
    Option (Except CheckError Verdict) :=
  match Unary.word? n with
  | .error fault => some (.error (.fault fault))
  | .ok word =>
    if g.hasRoom word then g.checkWithin Room.maxTrace limit fuel word
    else some (.error (.fault .noRoom))

end Grammar

end TapeGrammar
