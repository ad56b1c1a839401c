import TapeGrammar.Derivation.Recovery
import TapeGrammar.Derivation.Simulation

/-!
# Checking a word

The verdict on a word: the machine is simulated by a derivation until it halts, with as much padding
as it takes, and if the state is final the word is recovered from the configuration.

Here a list may become as long as it takes; `TapeGrammar.Derivation.Confined` has the check in memory.
-/

namespace TapeGrammar

namespace Derivation

/-- The state that the symbol under the cursor carries: its first label that names a state. -/
def stateCarried (g : Grammar) (d : Derivation) : Except CheckError String :=
  match d.form[d.cursor]?.bind fun symbol => symbol.labels.find? g.automaton.isState with
  | some state => .ok state
  | none => .error (.violation (.noState d.cursor d.form))

/-- Accepts what has been recovered, if it is the word. -/
def accept (word : Word) (state : String) (steps : Nat) (t : TracedForm) :
    Except CheckError Verdict :=
  if !Form.isTerminal t.form then .error (.violation (.nonTerminalsLeft t.form))
  else if Form.letters t.form ≠ word then
    .error (.violation (.otherWord (Form.letters t.form) word))
  else .ok (.accepted ⟨state, steps, t.trace⟩ (Form.letters t.form))

/-- The verdict on a derivation whose simulation has ended. -/
def conclude (g : Grammar) (fuel : Nat) (word : Word) (d : Derivation) :
    Option (Except CheckError Verdict) :=
  match stateCarried g d with
  | .error error => some (.error error)
  | .ok state =>
    if g.automaton.isFinal state then
      match recoverWord g fuel state d with
      | none => none
      | some (.error error) => some (.error error)
      | some (.ok t) => some (accept word state d.steps t)
    else some (.ok (.rejected ⟨state, d.steps, d.trace⟩))

end Derivation

namespace Grammar

/-- Why no derivation of a word is attempted: it is empty, or has letters that the grammar lacks. -/
def wordError? (g : Grammar) (word : Word) : Option CheckError :=
  let foreign := word.filter fun letter => !g.alphabet.contains letter
  if word.isEmpty then some .emptyWord
  else if foreign.isEmpty then none
  else some (.foreignLetters foreign)

theorem wordError?_eq_some {g : Grammar} {word : Word} {error : CheckError}
    (h : g.wordError? word = some error) :
    error = .emptyWord ∨ ∃ letters, letters.Sublist word ∧ error = .foreignLetters letters := by
  unfold wordError? at h
  simp only at h
  split at h
  · exact Or.inl (Option.some.inj h).symm
  · split at h
    · cases h
    · exact Or.inr ⟨_, List.filter_sublist, (Option.some.inj h).symm⟩

/-- **Whether the grammar derives a word.**  With a limit, the check is given up when the machine
needs more steps than that.  The answer is `none` if the fuel is used up: with the machine still
running, or with the padding still growing. -/
def check (g : Grammar) (limit : Option Nat) (fuel : Nat) (word : Word) :
    Option (Except CheckError Verdict) :=
  match g.wordError? word with
  | some error => some (.error error)
  | none =>
    match Padding.forLength word.length with
    | .error fault => some (.error (.fault fault))
    | .ok padding =>
      match iterate (Derivation.attempt g limit fuel word) fuel padding with
      | none => none
      | some (.error error) => some (.error error)
      | some (.ok d) => Derivation.conclude g fuel word d

end Grammar

end TapeGrammar
