import TapeGrammar.Derivation
import TapeGrammar.Iteration

/-!
# Simulating a machine by a derivation

One transition production is one step of the machine.  The SITES at which a production may apply lie
around the cursor and are tried in order; the simulation ends when no production applies at any of
them.

An unrestricted grammar generates a finite row of cells, and the simulation may end only because the
row does.  That is no halt of the machine: the row is generated again with more padding on that side
and the simulation starts over.
-/

namespace TapeGrammar.Derivation

/-! ## 1. One step -/

/-- A stretch of the form that a transition production may replace, and where the cursor is
afterwards. -/
structure Site where
  start : Nat
  width : Nat
  next : Nat
  deriving DecidableEq

/-- The sites in the order in which they are tried: the symbol under the cursor, this symbol and the
one behind it, and a stretch that begins before the cursor. -/
def sites (g : Grammar) (d : Derivation) : List Site :=
  [⟨d.cursor, 1, d.cursor⟩, ⟨d.cursor, 2, d.cursor + 1⟩]
  ++ if 0 < d.cursor then [⟨d.cursor - 1, g.kind.leftStepWidth, d.cursor - 1⟩] else []

/-- Applies the first alternative for what stands at a site.  `none` if there is none. -/
def stepAt (g : Grammar) (d : Derivation) (site : Site) : Except Fault (Option Derivation) :=
  match Form.stretch? d.form site.start site.width with
  | none => .ok none
  | some left =>
    match g.transition.first? left with
    | none => .ok none
    | some right =>
      match d.traced.apply left right with
      | .absent => .ok none
      | .applied traced => .ok (some { traced, cursor := site.next, steps := d.steps + 1 })
      | .refused fault _ => .error fault

/-- Tries sites in order. -/
def stepAmong (g : Grammar) (d : Derivation) : List Site → Except Fault (Option Derivation)
  | [] => .ok none
  | site :: rest =>
    match stepAt g d site with
    | .ok none => stepAmong g d rest
    | outcome => outcome

/-- One step of the machine.  `none` if no transition production applies around the cursor. -/
def step (g : Grammar) (d : Derivation) : Except Fault (Option Derivation) :=
  stepAmong g d (sites g d)

/-! ## 2. Steps until nothing applies -/

/-- The limit, if more steps have been made than it allows. -/
def exceeded (limit : Option Nat) (steps : Nat) : Option Nat := limit.filter (· < steps)

/-- One round of the simulation. -/
def stepRound (g : Grammar) (limit : Option Nat) (d : Derivation) :
    Round Derivation (Except CheckError Derivation) :=
  match step g d with
  | .error fault => .done (.error (.fault fault))
  | .ok none => .done (.ok d)
  | .ok (some next) =>
    match exceeded limit next.steps with
    | some limit => .done (.error (.stepLimit limit))
    | none => .again next

/-- Steps until no transition production applies. -/
def toHalt (g : Grammar) (limit : Option Nat) (fuel : Nat) (d : Derivation) :
    Option (Except CheckError Derivation) :=
  iterate (fun d => some (stepRound g limit d)) fuel d

/-! ## 3. Cells that are missing -/

/-- The symbol that the machine reads in an unrestricted configuration: the second label of the cell
behind the token, or the blank behind the last cell. -/
def symbolRead? (d : Derivation) (blank : String) : Option String :=
  match d.form[d.cursor + 1]? with
  | some cell => cell.labels[1]?
  | none => some blank

/-- The side on which the machine has run out of cells, although it has a move there.  A move inside
the row always finds a site, so a simulation that ends with a move left has reached an end of the
row. -/
def missingSide? (g : Grammar) (d : Derivation) : Option Direction := do
  let blank ← g.automaton.blank?
  let symbol ← d.form[d.cursor]?
  let state ← symbol.labels.head?
  let read ← d.symbolRead? blank
  let _ ← g.automaton.move? state read
  if d.cursor = 0 then some .left
  else if d.cursor + 1 = d.form.length then some .right
  else none

/-- One derivation with a given padding.  Another one is due if cells are missing. -/
def attempt (g : Grammar) (limit : Option Nat) (fuel : Nat) (word : Word) (padding : Padding) :
    Option (Round Padding (Except CheckError Derivation)) :=
  match ofWord g word padding with
  | .error error => some (.done (.error error))
  | .ok generated =>
    match toHalt g limit fuel generated with
    | none => none
    | some (.error error) => some (.done (.error error))
    | some (.ok d) =>
      match missingSide? g d with
      | none => some (.done (.ok d))
      | some side =>
        match padding.double side with
        | .error fault => some (.done (.error (.fault fault)))
        | .ok wider => some (.again wider)

end TapeGrammar.Derivation
