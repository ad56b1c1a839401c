import Std.Data.ExtTreeMap
import Std.Data.ExtTreeSet
import TapeGrammar.Symbol

/-!
# Tape automata

A deterministic automaton with one tape.  The tape is delimited in one of two ways, and that is all
that tells the two kinds apart: a TURING MACHINE works on a tape that is unbounded on both sides and
reads as a blank wherever nothing has been written; a LINEAR BOUNDED AUTOMATON works between two
markers.

The transition function is partial: where no entry is defined for the state and the symbol under
the head, the machine halts.  An automaton is any combination of the parts below; whether the parts
fit together is the business of `TapeGrammar.Automaton.Defect`.

Alphabets are ordered sets and the transition function is an ordered map, so everything that is
enumerated from an automaton comes in one order, and two automata with the same members are equal.
-/

namespace TapeGrammar

/-! ## 1. Kinds, boundaries and directions -/

/-- The two kinds of machine. -/
inductive Kind where
  /-- The tape is unbounded and filled with blanks. -/
  | unbounded
  /-- The tape is the word between two markers. -/
  | bounded
  deriving DecidableEq

namespace Kind

/-- The extension of descriptor files of this kind. -/
def extension : Kind → String
  | .unbounded => "tm"
  | .bounded => "lba"

/-- The kind of a descriptor file with the given extension. -/
def ofExtension? (extension : String) : Option Kind :=
  if extension = "tm" then some .unbounded
  else if extension = "lba" then some .bounded
  else none

/-- The name of the kind. -/
def text : Kind → String
  | .unbounded => "Turing machine"
  | .bounded => "Linear bounded automaton"

end Kind

/-- What delimits the tape. -/
inductive Boundary where
  /-- Cells that have not been written read as the blank. -/
  | blank (symbol : String)
  /-- The word is enclosed by a left and a right marker. -/
  | markers (left right : String)
  deriving DecidableEq

/-- The directions in which the head can move. -/
inductive Direction where
  | left
  | right
  deriving DecidableEq

/-- The keyword of a direction. -/
def Direction.text : Direction → String
  | .left => "left"
  | .right => "right"

/-! ## 2. The transition function -/

/-- What a machine decides upon: its state and the symbol under its head. -/
structure Situation where
  state : String
  read : String
  deriving DecidableEq

namespace Situation

/-- Situations are ordered by the state first. -/
instance : Ord Situation :=
  ⟨compareLex (compareOn Situation.state) (compareOn Situation.read)⟩

instance : Std.TransOrd Situation :=
  inferInstanceAs
    (Std.TransCmp (compareLex (compareOn Situation.state) (compareOn Situation.read)))

instance : Std.LawfulEqOrd Situation where
  eq_of_compare {a b} h := by
    obtain ⟨state, read⟩ := a
    obtain ⟨state', read'⟩ := b
    obtain ⟨hstate, hread⟩ := Ordering.then_eq_eq.mp h
    rw [Std.LawfulEqOrd.eq_of_compare (a := state) (b := state') hstate,
      Std.LawfulEqOrd.eq_of_compare (a := read) (b := read') hread]

end Situation

/-- What a machine does: it writes a symbol, moves its head and enters a state. -/
structure Move where
  next : String
  write : String
  direction : Direction
  deriving DecidableEq

/-- An ordered set of labels. -/
abbrev LabelSet := Std.ExtTreeSet String

/-- A partial transition function. -/
abbrev Delta := Std.ExtTreeMap Situation Move

/-! ## 3. Automata -/

/-- A deterministic automaton with one tape. -/
structure Automaton where
  /-- The input alphabet; that of a bounded automaton includes its markers. -/
  alphabet : LabelSet
  /-- The tape alphabet; that of a bounded automaton includes its markers. -/
  tapeAlphabet : LabelSet
  boundary : Boundary
  start : String
  finals : LabelSet
  delta : Delta

namespace Automaton

/-- The kind of an automaton is decided by what delimits its tape. -/
def kind (a : Automaton) : Kind :=
  match a.boundary with
  | .blank _ => .unbounded
  | .markers _ _ => .bounded

/-- The blank of a Turing machine. -/
def blank? (a : Automaton) : Option String :=
  match a.boundary with
  | .blank symbol => some symbol
  | .markers _ _ => none

/-- The left and the right marker of a bounded automaton. -/
def markers? (a : Automaton) : Option (String × String) :=
  match a.boundary with
  | .blank _ => none
  | .markers left right => some (left, right)

/-- Whether a symbol is one of the markers. -/
def isMarker (a : Automaton) (symbol : String) : Bool :=
  match a.boundary with
  | .blank _ => false
  | .markers left right => symbol == left || symbol == right

/-- The letters that a word may consist of: the input alphabet without the markers. -/
def inputs (a : Automaton) : List String :=
  a.alphabet.toList.filter fun symbol => !a.isMarker symbol

/-- The symbols that a cell may hold: the tape alphabet without the markers. -/
def cells (a : Automaton) : List String :=
  a.tapeAlphabet.toList.filter fun symbol => !a.isMarker symbol

/-- The entries of the transition function, ordered by state and then by the symbol read. -/
def entries (a : Automaton) : List (Situation × Move) := a.delta.toList

/-- The move defined for a state and a symbol. -/
def move? (a : Automaton) (state read : String) : Option Move := a.delta[Situation.mk state read]?

/-- Every state that the automaton mentions: the start state, the final states and the states of
the transition function. -/
def states (a : Automaton) : LabelSet :=
  Std.ExtTreeSet.ofList
    (a.start :: a.finals.toList ++ a.entries.flatMap fun (at_, move) => [at_.state, move.next])

/-- Whether the automaton mentions a state of this name. -/
def isState (a : Automaton) (label : String) : Bool := a.states.contains label

/-- Whether a state is final. -/
def isFinal (a : Automaton) (state : String) : Bool := a.finals.contains state

/-! ## 4. The sizes of an automaton -/

/-- The sizes that are reported when a machine has been loaded. -/
structure Sizes where
  kind : Kind
  alphabetSize : Nat
  tapeAlphabetSize : Nat
  stateCount : Nat
  transitionCount : Nat
  deriving DecidableEq

/-- The sizes of an automaton. -/
def sizes (a : Automaton) : Sizes where
  kind := a.kind
  alphabetSize := a.alphabet.size
  tapeAlphabetSize := a.tapeAlphabet.size
  stateCount := a.states.size
  transitionCount := a.delta.size

/-- The report: one line per size, under a heading. -/
def Sizes.text (sizes : Sizes) : String :=
  "\n".intercalate
    [s!"* * * {sizes.kind.text} * * *",
      s!"Sigma size: {sizes.alphabetSize}",
      s!"Gamma size: {sizes.tapeAlphabetSize}",
      s!"Total states: {sizes.stateCount}",
      s!"Total transitions: {sizes.transitionCount}"]

end Automaton

end TapeGrammar
