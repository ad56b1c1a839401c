import TapeGrammar.Automaton
import TapeGrammar.Grammar.Plan

/-!
# The context-sensitive grammar of a bounded automaton

Every cell of the tape is one composite symbol, which holds its tape symbol `X` and the letter `a`
that it was generated from.  The first cell also carries the left marker and the last cell the right
one.  The cell under the head carries the state, and where in the composite the state stands says
what the head reads:

| layout         | the head reads   |
|----------------|------------------|
| `[q, @, X, a]` | the left marker  |
| `[@, q, X, a]` | the first cell   |
| `[q, X, a]`    | an inner cell    |
| `[q, X, a, $]` | the last cell    |
| `[X, a, q, $]` | the right marker |

A word of a single letter makes one composite with both markers: `[q, @, X, a, $]`,
`[@, q, X, a, $]` or `[@, X, a, q, $]`.

No production shortens the row: a cell becomes a cell, and recovery turns every cell into one
letter.  The productions are listed in the order in which they enter the tables.
-/

namespace TapeGrammar.ContextSensitive

/-! ## 1. Symbols -/

/-- A composite symbol. -/
def composite (labels : List String) : Symbol := .nonTerminal labels

/-- The helper that puts the state on the left marker of the first cell. -/
def placeState : Symbol := .nonTerminal ["A1"]

/-- The helper that generates the cells behind the first. -/
def layLetters : Symbol := .nonTerminal ["A2"]

/-- The symbol that every derivation starts from. -/
def start : Symbol := placeState

/-- What the productions are enumerated over: the markers, the letters and the cell symbols. -/
structure Vocabulary where
  left : String
  right : String
  inputs : List String
  cells : List String

/-- The vocabulary of an automaton with the given markers. -/
def Vocabulary.ofAutomaton (a : Automaton) (left right : String) : Vocabulary :=
  ⟨left, right, a.inputs, a.cells⟩

/-! ## 2. Generation -/

/-- `A1 -> [q, @, a, a, $] | [q, @, a, a]A2` and `A2 -> [a, a]A2 | [a, a, $]`. -/
def generation (state : String) (vocabulary : Vocabulary) : List Production :=
  vocabulary.inputs.flatMap fun a =>
    [⟨[placeState], [composite [state, vocabulary.left, a, a, vocabulary.right]]⟩,
      ⟨[placeState], [composite [state, vocabulary.left, a, a], layLetters]⟩,
      ⟨[layLetters], [composite [a, a], layLetters]⟩,
      ⟨[layLetters], [composite [a, a, vocabulary.right]]⟩]

/-- The plan for the cells behind the first one. -/
def planTail (right : String) : Word → Plan
  | [] => []
  | [last] => [.single layLetters [composite [last, last, right]]]
  | a :: rest => .single layLetters [composite [a, a], layLetters] :: planTail right rest

/-- The plan for a word: one composite for a single letter, and otherwise a first cell, the inner
cells and a last cell. -/
def plan (state left right : String) : Word → Plan
  | [] => []
  | [a] => [.single placeState [composite [state, left, a, a, right]]]
  | first :: rest =>
    .single placeState [composite [state, left, first, first], layLetters] :: planTail right rest

/-! ## 3. Transition -/

/-- The head leaves the left marker for the first cell. -/
def leaveLeftMarker (vocabulary : Vocabulary) (q p a : String) : List Production :=
  vocabulary.cells.flatMap fun z =>
    [⟨[composite [q, vocabulary.left, z, a, vocabulary.right]],
        [composite [vocabulary.left, p, z, a, vocabulary.right]]⟩,
      ⟨[composite [q, vocabulary.left, z, a]],
        [composite [vocabulary.left, p, z, a]]⟩]

/-- The head leaves the right marker for the last cell. -/
def leaveRightMarker (vocabulary : Vocabulary) (q p a : String) : List Production :=
  vocabulary.cells.flatMap fun z =>
    [⟨[composite [vocabulary.left, z, a, q, vocabulary.right]],
        [composite [vocabulary.left, p, z, a, vocabulary.right]]⟩,
      ⟨[composite [z, a, q, vocabulary.right]],
        [composite [p, z, a, vocabulary.right]]⟩]

/-- The head steps right from a cell: from the last cell onto the right marker, from any other cell
onto the next one. -/
def stepRight (vocabulary : Vocabulary) (q x p y a : String) : List Production :=
  [⟨[composite [vocabulary.left, q, x, a, vocabulary.right]],
      [composite [vocabulary.left, y, a, p, vocabulary.right]]⟩,
    ⟨[composite [q, x, a, vocabulary.right]],
      [composite [y, a, p, vocabulary.right]]⟩]
  ++ vocabulary.cells.flatMap fun z => vocabulary.inputs.flatMap fun b =>
    [⟨[composite [vocabulary.left, q, x, a], composite [z, b]],
        [composite [vocabulary.left, y, a], composite [p, z, b]]⟩,
      ⟨[composite [vocabulary.left, q, x, a], composite [z, b, vocabulary.right]],
        [composite [vocabulary.left, y, a], composite [p, z, b, vocabulary.right]]⟩,
      ⟨[composite [q, x, a], composite [z, b]],
        [composite [y, a], composite [p, z, b]]⟩,
      ⟨[composite [q, x, a], composite [z, b, vocabulary.right]],
        [composite [y, a], composite [p, z, b, vocabulary.right]]⟩]

/-- The head steps left from a cell: from the first cell onto the left marker, from any other cell
onto the one before. -/
def stepLeft (vocabulary : Vocabulary) (q x p y a : String) : List Production :=
  [⟨[composite [vocabulary.left, q, x, a, vocabulary.right]],
      [composite [p, vocabulary.left, y, a, vocabulary.right]]⟩,
    ⟨[composite [vocabulary.left, q, x, a]],
      [composite [p, vocabulary.left, y, a]]⟩]
  ++ vocabulary.cells.flatMap fun z => vocabulary.inputs.flatMap fun b =>
    [⟨[composite [vocabulary.left, z, b], composite [q, x, a]],
        [composite [vocabulary.left, p, z, b], composite [y, a]]⟩,
      ⟨[composite [z, b], composite [q, x, a]],
        [composite [p, z, b], composite [y, a]]⟩,
      ⟨[composite [z, b], composite [q, x, a, vocabulary.right]],
        [composite [p, z, b], composite [y, a, vocabulary.right]]⟩,
      ⟨[composite [vocabulary.left, z, b], composite [q, x, a, vocabulary.right]],
        [composite [vocabulary.left, p, z, b], composite [y, a, vocabulary.right]]⟩]

/-- The productions of one entry of the transition function for a cell generated from `a`.  The
marker families serve the entries that read a marker and write it back; every other entry moves from
cell to cell. -/
def entryProductions (vocabulary : Vocabulary) (at_ : Situation) (move : Move) (a : String) :
    List Production :=
  match move.direction with
  | .right =>
    if at_.read = vocabulary.left ∧ move.write = vocabulary.left then
      leaveLeftMarker vocabulary at_.state move.next a
    else stepRight vocabulary at_.state at_.read move.next move.write a
  | .left =>
    if at_.read = vocabulary.right ∧ move.write = vocabulary.right then
      leaveRightMarker vocabulary at_.state move.next a
    else stepLeft vocabulary at_.state at_.read move.next move.write a

/-- The productions of all entries. -/
def transition (entries : List (Situation × Move)) (vocabulary : Vocabulary) : List Production :=
  entries.flatMap fun (at_, move) => vocabulary.inputs.flatMap fun a =>
    entryProductions vocabulary at_ move a

/-! ## 4. Recovery -/

/-- The eight composites that carry the state `q` on a cell that holds `x` and was generated from
`a`. -/
def stateComposites (vocabulary : Vocabulary) (q x a : String) : List Symbol :=
  [composite [q, vocabulary.left, x, a, vocabulary.right],
    composite [vocabulary.left, q, x, a, vocabulary.right],
    composite [vocabulary.left, x, a, q, vocabulary.right],
    composite [q, vocabulary.left, x, a],
    composite [vocabulary.left, q, x, a],
    composite [q, x, a],
    composite [q, x, a, vocabulary.right],
    composite [x, a, q, vocabulary.right]]

/-- A composite with a final state becomes its letter. -/
def recoverState (vocabulary : Vocabulary) (q x a : String) : List Production :=
  (stateComposites vocabulary q x a).map fun anchor => ⟨[anchor], [.terminal a]⟩

/-- A cell beside a letter becomes its own letter. -/
def recoverNeighbour (vocabulary : Vocabulary) (x a b : String) : List Production :=
  [⟨[.terminal a, composite [x, b]], [.terminal a, .terminal b]⟩,
    ⟨[.terminal a, composite [x, b, vocabulary.right]], [.terminal a, .terminal b]⟩,
    ⟨[composite [x, a], .terminal b], [.terminal a, .terminal b]⟩,
    ⟨[composite [vocabulary.left, x, a], .terminal b], [.terminal a, .terminal b]⟩]

/-- The productions that turn a final configuration into its word. -/
def recovery (finals : List String) (vocabulary : Vocabulary) : List Production :=
  vocabulary.inputs.flatMap fun a => vocabulary.cells.flatMap fun x =>
    (finals.flatMap fun q => recoverState vocabulary q x a)
      ++ vocabulary.inputs.flatMap fun b => recoverNeighbour vocabulary x a b

end TapeGrammar.ContextSensitive
