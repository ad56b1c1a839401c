import TapeGrammar.Derivation
import TapeGrammar.Iteration

/-!
# Recovering the word

A configuration in a final state is turned into the letters that its cells were generated from.  The
symbol that carries the state comes first, then the cells behind it from left to right, then the
cells before it from right to left, and in an unrestricted grammar the copies of the token vanish at
last.

An unrestricted form grows while it is scanned, because a token is left on either side of every
letter.
-/

namespace TapeGrammar.Derivation

/-! ## 1. The cells -/

/-- Replaces the two symbols from a position on by the first recovery production for them, if there
is one. -/
def recoverAt (g : Grammar) (start : Nat) (t : TracedForm) : Except Fault TracedForm :=
  match Form.stretch? t.form start 2 with
  | none => .ok t
  | some left =>
    match g.recovery.first? left with
    | none => .ok t
    | some right =>
      match t.apply left right with
      | .absent => .ok t
      | .applied result => .ok result
      | .refused fault _ => .error fault

/-- One round of the scan to the right: the two symbols from a position on, as long as there are
two. -/
def recoverRightRound (g : Grammar) :
    Nat × TracedForm → Round (Nat × TracedForm) (Except CheckError TracedForm)
  | (i, t) =>
    if i + 1 < t.form.length then
      match recoverAt g i t with
      | .error fault => .done (.error (.fault fault))
      | .ok result => .again (i + 1, result)
    else .done (.ok t)

/-- The positions from `start` to the end of the form, from left to right. -/
def recoverRight (g : Grammar) (fuel start : Nat) (t : TracedForm) :
    Option (Except CheckError TracedForm) :=
  iterate (fun state => some (recoverRightRound g state)) fuel (start, t)

/-- The positions before `start`, from right to left. -/
def recoverLeft (g : Grammar) : (start : Nat) → TracedForm → Except CheckError TracedForm
  | 0, t => .ok t
  | i + 1, t =>
    match recoverAt g i t with
    | .error fault => .error (.fault fault)
    | .ok result => recoverLeft g i result

/-! ## 2. The state -/

/-- In a context-sensitive configuration the composite that carries the state becomes a letter
first; an unrestricted one begins with its token as it is. -/
def recoverState (g : Grammar) (d : Derivation) : Except CheckError TracedForm :=
  match g.kind with
  | .unrestricted => .ok d.traced
  | .contextSensitive =>
    let left : Form := d.form[d.cursor]?.toList
    match g.recovery.first? left with
    | none => .error (.violation (.noRecovery d.cursor d.form))
    | some right =>
      match d.traced.apply left right with
      | .absent => .ok d.traced
      | .applied result => .ok result
      | .refused fault _ => .error (.fault fault)

/-- One round of removing tokens: one copy is replaced, as long as there is one. -/
def removeRound (token right : Form) :
    Nat × TracedForm → Round (Nat × TracedForm) (Except CheckError (Nat × TracedForm))
  | (count, t) =>
    match t.apply token right with
    | .absent => .done (.ok (count, t))
    | .applied result => .again (count + 1, result)
    | .refused fault _ => .done (.error (.fault fault))

/-- Removes all copies of the token of a state, if a recovery production does so, and counts
them. -/
def removeTokens (g : Grammar) (fuel : Nat) (state : String) (t : TracedForm) :
    Option (Except CheckError (Nat × TracedForm)) :=
  let token : Form := [.nonTerminal [state]]
  match g.recovery.first? token with
  | none => some (.ok (0, t))
  | some right => iterate (fun state => some (removeRound token right state)) fuel (0, t)

/-! ## 3. The whole configuration -/

/-- Recovers the word from a configuration in a final state. -/
def recoverWord (g : Grammar) (fuel : Nat) (state : String) (d : Derivation) :
    Option (Except CheckError TracedForm) :=
  match recoverState g d with
  | .error error => some (.error error)
  | .ok begun =>
    match recoverRight g fuel d.cursor begun with
    | none => none
    | some (.error error) => some (.error error)
    | some (.ok right) =>
      match recoverLeft g d.cursor right with
      | .error error => some (.error error)
      | .ok both =>
        match removeTokens g fuel state both with
        | none => none
        | some (.error error) => some (.error error)
        | some (.ok (count, t)) =>
          if g.kind = .unrestricted ∧ count = 0 then
            some (.error (.violation (.tokenKept state t.form)))
          else some (.ok t)

end TapeGrammar.Derivation
