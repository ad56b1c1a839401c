import TapeGrammar.Form

/-!
# Productions and traces

A PRODUCTION `left -> right` says that an occurrence of `left` may be replaced by `right`.  A
TRACE is the list of the productions that a derivation has applied, in the order of application.
-/

namespace TapeGrammar

/-! ## 1. Productions -/

/-- A rule `left -> right`. -/
structure Production where
  left : Form
  right : Form
  deriving DecidableEq

namespace Production

/-- A left side has at most this many symbols. -/
def widthLimit : Nat := 3

/-- Whether the left side has between one and three symbols. -/
def HasWidth (p : Production) : Prop :=
  1 ≤ p.left.length ∧ p.left.length ≤ widthLimit

instance (p : Production) : Decidable p.HasWidth :=
  inferInstanceAs (Decidable (_ ∧ _))

/-- The production `left -> right`, if its left side has between one and three symbols. -/
def make (left right : Form) : Except Fault Production :=
  if HasWidth ⟨left, right⟩ then .ok ⟨left, right⟩ else .error (.patternWidth left.length)

/-- The written form `left -> right`. -/
def text (p : Production) : String :=
  Form.text p.left ++ " -> " ++ Form.text p.right

end Production

/-! ## 2. Traces -/

/-- The productions applied so far.  They are kept with the latest first, so that a step costs the
same however long the trace is; `steps` gives them in the order of application. -/
structure Trace where
  latestFirst : List Production
  deriving DecidableEq

namespace Trace

/-- The trace of a derivation that has not begun. -/
def empty : Trace := ⟨[]⟩

/-- Adds a production at the end. -/
def push (trace : Trace) (p : Production) : Trace := ⟨p :: trace.latestFirst⟩

/-- The productions in the order of application. -/
def steps (trace : Trace) : List Production := trace.latestFirst.reverse

/-- The number of applications. -/
def length (trace : Trace) : Nat := trace.latestFirst.length

/-- Whether nothing has been applied yet. -/
def isEmpty (trace : Trace) : Bool := trace.latestFirst.isEmpty

/-- The production applied last. -/
def last? (trace : Trace) : Option Production := trace.latestFirst.head?

/-- Every step in its written form. -/
def lines (trace : Trace) : List String := trace.steps.map Production.text

@[simp] theorem steps_empty : empty.steps = [] := rfl

@[simp] theorem steps_push (trace : Trace) (p : Production) :
    (trace.push p).steps = trace.steps ++ [p] := by
  simp [steps, push]

@[simp] theorem length_steps (trace : Trace) : trace.steps.length = trace.length := by
  simp [steps, length]

@[ext] theorem ext_steps {s t : Trace} (h : s.steps = t.steps) : s = t := by
  cases s
  cases t
  simpa [steps] using h

end Trace

end TapeGrammar
