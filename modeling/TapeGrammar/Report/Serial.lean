import TapeGrammar.Configuration
import TapeGrammar.Derivation.Verdict
import TapeGrammar.Report.Json

/-!
# Results as JSON values

How symbols, productions, traces, verdicts and outcomes are laid out as JSON values.  A symbol is an
object with one member, whose key tells terminals and non-terminals apart; a verdict names itself in
its member `verdict`.
-/

namespace TapeGrammar

open Report (Json)

/-- A symbol: its kind and its labels. -/
def Symbol.toJson : Symbol → Json
  | .terminal label => .ofMembers [("Terminal", .string label)]
  | .nonTerminal labels => .ofMembers [("NonTerminal", .strings labels)]

/-- A row of symbols. -/
def Form.toJson (form : Form) : Json := .array (form.map Symbol.toJson)

/-- A production: its two sides. -/
def Production.toJson (p : Production) : Json :=
  .ofMembers [("left", Form.toJson p.left), ("right", Form.toJson p.right)]

/-- A trace: its productions in the order of application. -/
def Trace.toJson (trace : Trace) : Json :=
  .ofMembers [("steps", .array (trace.steps.map Production.toJson))]

/-- A verdict; its trace may be left out. -/
def Verdict.toJson (verdict : Verdict) (withTrace : Bool) : Json :=
  let halt := verdict.halt
  let particulars : List (String × Json) :=
    match verdict with
    | .accepted _ letters =>
      [("verdict", .string "accepted"), ("terminals", .strings letters)]
    | .rejected _ =>
      [("verdict", .string "rejected"), ("reason", .string Verdict.rejectionReason)]
  let trace := if withTrace then [("trace", halt.trace.toJson)] else []
  .ofMembers
    (particulars ++ [("state", .string halt.state), ("steps", .number halt.steps)] ++ trace)

/-- The outcome of a direct run. -/
def Outcome.toJson (outcome : Outcome) : Json :=
  .ofMembers [("state", .string outcome.state), ("steps", .number outcome.steps),
    ("accepted", .bool outcome.accepted)]

end TapeGrammar
