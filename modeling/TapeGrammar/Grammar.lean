import TapeGrammar.Grammar.ContextSensitive
import TapeGrammar.Grammar.Table
import TapeGrammar.Grammar.Unrestricted

/-!
# The grammar of an automaton

An automaton is compiled into three tables of productions, one for each phase of a derivation:
GENERATION makes the initial configuration for a word, TRANSITION makes the steps of the machine and
RECOVERY turns a final configuration into the word again.  A Turing machine gives an unrestricted
grammar, a bounded automaton a context-sensitive one.
-/

namespace TapeGrammar

/-! ## 1. Kinds of grammars -/

/-- The two constructions. -/
inductive GrammarKind where
  | unrestricted
  | contextSensitive
  deriving DecidableEq

namespace GrammarKind

/-- The construction for a kind of machine. -/
def ofMachine : Kind → GrammarKind
  | .unbounded => .unrestricted
  | .bounded => .contextSensitive

/-- The name of a kind of grammar. -/
def text : GrammarKind → String
  | .unrestricted => "Zero-type grammar"
  | .contextSensitive => "One-type grammar"

/-- The position of the state right after generation: behind the padding to the left, or in the
first composite. -/
def firstCursor (kind : GrammarKind) (padding : Padding) : Nat :=
  match kind with
  | .unrestricted => padding.left
  | .contextSensitive => 0

/-- The number of symbols that a step to the left replaces, the one before the cursor included. -/
def leftStepWidth : GrammarKind → Nat
  | .unrestricted => 3
  | .contextSensitive => 2

end GrammarKind

/-! ## 2. Grammars -/

/-- An automaton with its three tables. -/
structure Grammar where
  automaton : Automaton
  generation : Productions
  transition : Productions
  recovery : Productions

namespace Grammar

/-- Compiles an automaton. -/
def ofAutomaton (a : Automaton) : Grammar :=
  match a.boundary with
  | .blank blank => {
      automaton := a
      generation := .ofList (Unrestricted.generation a blank)
      transition := .ofList (Unrestricted.transition a)
      recovery := .ofList (Unrestricted.recovery a) }
  | .markers left right =>
    let vocabulary := ContextSensitive.Vocabulary.ofAutomaton a left right
    { automaton := a
      generation := .ofList (ContextSensitive.generation a.start vocabulary)
      transition := .ofList (ContextSensitive.transition a.entries vocabulary)
      recovery := .ofList (ContextSensitive.recovery a.finals.toList vocabulary) }

/-- The construction that the automaton asks for. -/
def kind (g : Grammar) : GrammarKind := .ofMachine g.automaton.kind

/-- The letters that a derivable word may consist of. -/
def alphabet (g : Grammar) : List String := g.automaton.inputs

/-- The symbol that every derivation starts from. -/
def start (g : Grammar) : Symbol :=
  match g.kind with
  | .unrestricted => Unrestricted.start
  | .contextSensitive => ContextSensitive.start

/-- The plan that generates the initial configuration for a word with the given padding.  The
markers delimit a bounded configuration, so padding does not matter there. -/
def plan (g : Grammar) (word : Word) (padding : Padding) : Plan :=
  match g.automaton.boundary with
  | .blank blank => Unrestricted.plan g.automaton.start blank word padding
  | .markers left right => ContextSensitive.plan g.automaton.start left right word

/-- The productions of all tables: generation, then transition, then recovery. -/
def productions (g : Grammar) : List Production :=
  g.generation.toList ++ g.transition.toList ++ g.recovery.toList

/-- Every production in its written form. -/
def lines (g : Grammar) : List String := g.productions.map Production.text

/-- The contents of a file that lists the grammar, one production per line. -/
def listing (g : Grammar) : String := "\n".intercalate g.lines ++ "\n"

/-! ## 3. The sizes of a grammar -/

/-- The sizes of a grammar. -/
structure Sizes where
  kind : GrammarKind
  alphabetSize : Nat
  generationCount : Nat
  transitionCount : Nat
  recoveryCount : Nat
  deriving DecidableEq

namespace Sizes

/-- The number of productions of all tables. -/
def total (sizes : Sizes) : Nat :=
  sizes.generationCount + sizes.transitionCount + sizes.recoveryCount

/-- The report: one line per size, under a heading. -/
def text (sizes : Sizes) : String :=
  "\n".intercalate
    [s!"* * * {sizes.kind.text} * * *",
      s!"Sigma size: {sizes.alphabetSize}",
      s!"Generation productions: {sizes.generationCount}",
      s!"Transition productions: {sizes.transitionCount}",
      s!"Recovery productions: {sizes.recoveryCount}",
      s!"Total productions: {sizes.total}"]

end Sizes

/-- The sizes of a grammar. -/
def sizes (g : Grammar) : Sizes where
  kind := g.kind
  alphabetSize := g.alphabet.length
  generationCount := g.generation.length
  transitionCount := g.transition.length
  recoveryCount := g.recovery.length

end Grammar

end TapeGrammar
