import TapeGrammar.Production

/-!
# Generation plans

The generation of an initial configuration is not searched for: it follows a PLAN, which says which
production to apply how many times.
-/

namespace TapeGrammar

/-- One entry of a plan: apply a production so many times. -/
structure PlanStep where
  production : Production
  times : Nat
  deriving DecidableEq

/-- A plan is carried out from its first entry to its last. -/
abbrev Plan := List PlanStep

namespace PlanStep

/-- Replace one symbol so many times. -/
def repeated (left : Symbol) (right : Form) (times : Nat) : PlanStep := ⟨⟨[left], right⟩, times⟩

/-- Replace one symbol once. -/
def single (left : Symbol) (right : Form) : PlanStep := repeated left right 1

end PlanStep

end TapeGrammar
