import TapeGrammar.Automaton
import TapeGrammar.Grammar.Padding
import TapeGrammar.Grammar.Plan

/-!
# The unrestricted grammar of a Turing machine

A configuration is a row of CELLS `[a, X]` with one TOKEN `q` in it.  A cell holds the letter `a` it
was generated from -- `ε` if it is a padding cell -- and the tape symbol `X` that it holds now.  The
token is the state; it stands immediately before the cell under the head.

* GENERATION makes the row for a word, with any number of padding cells on both sides.
* TRANSITION makes one production of every entry of the transition function and every letter; a move
  to the left also needs to know the cell that it moves to.
* RECOVERY lets a final token spread over the row.  Every cell that it passes becomes its letter, or
  nothing if it is a padding cell, and in the end the copies of the token vanish.

The productions are listed in the order in which they enter the tables.
-/

namespace TapeGrammar.Unrestricted

/-! ## 1. Symbols -/

/-- The cell generated from `letter` that holds `symbol`. -/
def cell (letter symbol : String) : Symbol := .nonTerminal [letter, symbol]

/-- The token of a state. -/
def token (state : String) : Symbol := .nonTerminal [state]

/-- The helper that generates the padding to the left. -/
def fillLeft : Symbol := .nonTerminal ["A0"]

/-- The helper that puts the token in its place. -/
def placeToken : Symbol := .nonTerminal ["A1"]

/-- The helper that generates the cells of the word. -/
def layLetters : Symbol := .nonTerminal ["A2"]

/-- The helper that generates the padding to the right. -/
def fillRight : Symbol := .nonTerminal ["A3"]

/-- The symbol that every derivation starts from. -/
def start : Symbol := fillLeft

/-- What a cell may have been generated from: a letter, or nothing. -/
def origins (a : Automaton) : List String := a.inputs ++ [Symbol.epsilon]

/-! ## 2. Generation -/

/-- `A0 -> [ε, B]A0 | A1`, `A1 -> q A2`, `A2 -> [a, a]A2 | A3`, `A3 -> [ε, B]A3 | ε`. -/
def generation (a : Automaton) (blank : String) : List Production :=
  [⟨[fillLeft], [cell Symbol.epsilon blank, fillLeft]⟩,
    ⟨[fillLeft], [placeToken]⟩,
    ⟨[placeToken], [token a.start, layLetters]⟩]
  ++ (a.inputs.map fun letter => ⟨[layLetters], [cell letter letter, layLetters]⟩)
  ++ [⟨[layLetters], [fillRight]⟩,
    ⟨[fillRight], [cell Symbol.epsilon blank, fillRight]⟩,
    ⟨[fillRight], []⟩]

/-- The plan for a word: padding, token, the cells of the word, padding. -/
def plan (state blank : String) (word : Word) (padding : Padding) : Plan :=
  [.repeated fillLeft [cell Symbol.epsilon blank, fillLeft] padding.left,
    .single fillLeft [placeToken],
    .single placeToken [token state, layLetters]]
  ++ (word.map fun letter => .single layLetters [cell letter letter, layLetters])
  ++ [.single layLetters [fillRight],
    .repeated fillRight [cell Symbol.epsilon blank, fillRight] padding.right,
    .single fillRight []]

/-! ## 3. Transition -/

/-- `q[a, X] -> [a, Y]p`: the head steps right over the cell that it has written to. -/
def stepRight (at_ : Situation) (move : Move) (origin : String) : Production :=
  ⟨[token at_.state, cell origin at_.read], [cell origin move.write, token move.next]⟩

/-- `[b, C]q[a, X] -> p[b, C][a, Y]`: the head steps left onto the cell `[b, C]`. -/
def stepLeft (at_ : Situation) (move : Move) (origin before symbol : String) : Production :=
  ⟨[cell before symbol, token at_.state, cell origin at_.read],
    [token move.next, cell before symbol, cell origin move.write]⟩

/-- The productions of one entry of the transition function. -/
def entryProductions (a : Automaton) (at_ : Situation) (move : Move) : List Production :=
  (origins a).flatMap fun origin =>
    match move.direction with
    | .right => [stepRight at_ move origin]
    | .left =>
      (origins a).flatMap fun before =>
        a.tapeAlphabet.toList.map fun symbol => stepLeft at_ move origin before symbol

/-- The productions of all entries. -/
def transition (a : Automaton) : List Production :=
  a.entries.flatMap fun (at_, move) => entryProductions a at_ move

/-! ## 4. Recovery -/

/-- What is left of a cell that a final token has passed: its letter between two tokens, or the two
tokens alone if it is a padding cell. -/
def passed (state origin : String) : Form :=
  if origin = Symbol.epsilon then [token state, token state]
  else [token state, .terminal origin, token state]

/-- `q -> ε`, `[a, C]q -> q a q` and `q[a, C] -> q a q` for one final state. -/
def finalProductions (a : Automaton) (state : String) : List Production :=
  ⟨[token state], []⟩ :: (origins a).flatMap fun origin =>
    a.tapeAlphabet.toList.flatMap fun symbol =>
      [⟨[cell origin symbol, token state], passed state origin⟩,
        ⟨[token state, cell origin symbol], passed state origin⟩]

/-- The productions of all final states. -/
def recovery (a : Automaton) : List Production :=
  a.finals.toList.flatMap (finalProductions a)

end TapeGrammar.Unrestricted
