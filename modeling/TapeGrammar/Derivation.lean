import TapeGrammar.Derivation.Verdict
import TapeGrammar.Grammar
import TapeGrammar.TracedForm

/-!
# Derivations

Whether a grammar derives a word is found out by making one particular derivation, in three phases.

* GENERATION follows the plan for the word and makes the initial configuration (this module).
* SIMULATION applies transition productions around a CURSOR, which stays on the symbol that carries
  the state (`TapeGrammar.Derivation.Simulation`).
* RECOVERY, only if the state is final, turns the configuration into the letters of the word
  (`TapeGrammar.Derivation.Recovery`).

Every replacement goes through `TracedForm.apply`, which replaces the leftmost occurrence in the
whole form.  That this is the occurrence under the cursor is a fact about well-formed automata and
is not built in.
-/

namespace TapeGrammar

/-- A derivation in progress. -/
structure Derivation where
  traced : TracedForm
  /-- The position of the symbol that carries the state. -/
  cursor : Nat
  /-- The number of machine steps made. -/
  steps : Nat
  deriving DecidableEq

namespace Derivation

/-- The form that has been reached. -/
def form (d : Derivation) : Form := d.traced.form

/-- The productions applied so far. -/
def trace (d : Derivation) : Trace := d.traced.trace

/-- The derivation before its first step. -/
def initial (g : Grammar) (padding : Padding) : Derivation where
  traced := .ofForm [g.start]
  cursor := g.kind.firstCursor padding
  steps := 0

/-- Applies a production so many times. -/
def applyTimes (p : Production) : (times : Nat) → TracedForm → Except CheckError TracedForm
  | 0, t => .ok t
  | times + 1, t =>
    match t.apply p.left p.right with
    | .absent => .error (.violation (.stuckProduction p t.form))
    | .applied result => applyTimes p times result
    | .refused fault _ => .error (.fault fault)

/-- Carries out a plan.  Every production of the plan has to be in the generation table. -/
def followPlan (g : Grammar) : Plan → TracedForm → Except CheckError TracedForm
  | [], t => .ok t
  | step :: plan, t =>
    if step.production ∈ g.generation then
      match applyTimes step.production step.times t with
      | .error error => .error error
      | .ok result => followPlan g plan result
    else .error (.violation (.missingProduction step.production))

/-- The derivation that has made the initial configuration for a word. -/
def ofWord (g : Grammar) (word : Word) (padding : Padding) : Except CheckError Derivation :=
  let d := initial g padding
  match followPlan g (g.plan word padding) d.traced with
  | .error error => .error error
  | .ok traced => .ok { d with traced }

end Derivation

end TapeGrammar
