import TapeGrammar.Production

/-!
# Forms with a trace

The one primitive of every derivation: replace the leftmost occurrence of a left side by the right
side, and write the production down.  All phases of a derivation go through `TracedForm.apply` and
through nothing else, so whatever is shown here about a trace holds for all of them.
-/

namespace TapeGrammar

/-- A form together with the productions that have led to it. -/
structure TracedForm where
  form : Form
  trace : Trace
  deriving DecidableEq

/-- What an attempt to apply a production leads to. -/
inductive Application where
  /-- The left side does not occur; nothing has changed. -/
  | absent
  /-- The leftmost occurrence has been replaced and the production added to the trace. -/
  | applied (result : TracedForm)
  /-- The left side occurs but is too wide for a production: the occurrence has been replaced, the
  trace has not been extended. -/
  | refused (fault : Fault) (result : TracedForm)
  deriving DecidableEq

namespace TracedForm

/-- A form that nothing has been applied to yet. -/
def ofForm (form : Form) : TracedForm := ⟨form, .empty⟩

/-- Replaces the leftmost occurrence of `left` by `right` and adds the production to the trace. -/
def apply (t : TracedForm) (left right : Form) : Application :=
  match t.form.replaceFirst? left right with
  | none => .absent
  | some form =>
    match Production.make left right with
    | .ok production => .applied ⟨form, t.trace.push production⟩
    | .error fault => .refused fault ⟨form, t.trace⟩

end TracedForm

end TapeGrammar
