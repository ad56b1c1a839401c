import TapeGrammar.Automaton
import TapeGrammar.Text.Quoted

/-!
# Defects of an automaton

The grammar constructions rely on the parts of an automaton fitting together: the input alphabet on
the tape, a blank that is no letter, markers that are never overwritten or crossed, and names that
cannot be mistaken for one another inside a composite symbol.  A DEFECT is a way in which the parts
do not fit.  An automaton is WELL FORMED if it has none.

The five inspections are made in a fixed order and the first defect is the one that is reported, so
an automaton with several defects is always reported in the same way.
-/

namespace TapeGrammar

/-! ## 1. The defects -/

/-- A way in which the parts of an automaton do not fit together. -/
inductive Defect where
  /-- Letters of the input alphabet are missing from the tape alphabet. -/
  | inputsNotOnTape (symbols : List String)
  /-- The blank is not in the tape alphabet. -/
  | blankNotOnTape (blank : String)
  /-- The blank is also a letter. -/
  | blankIsInput (blank : String)
  /-- The two markers are the same symbol. -/
  | equalMarkers (marker : String)
  /-- Markers are missing from one of the alphabets. -/
  | markersNotInAlphabets (markers : List String)
  /-- The input alphabet holds the markers only. -/
  | noInputs
  /-- Entries of the transition function read or write symbols outside the tape alphabet. -/
  | foreignSymbols (entries : List (Situation × Move))
  /-- Entries of the transition function overwrite, cross or invent a marker. -/
  | markersViolated (entries : List (Situation × Move))
  /-- Names that could be mistaken for others. -/
  | clashingNames (names : List String)
  deriving DecidableEq

/-- An entry of the transition function without its direction. -/
def Situation.entryText (at_ : Situation) (move : Move) : String :=
  s!"{at_.state} {at_.read} -> {move.next} {move.write}"

namespace Defect

/-- The report of a defect. -/
def message : Defect → String
  | .inputsNotOnTape symbols =>
    "Input symbols missing from the tape alphabet: " ++ Text.quotedList symbols
  | .blankNotOnTape blank => s!"Invalid blank symbol: '{blank}' is not a tape symbol"
  | .blankIsInput blank => s!"Invalid blank symbol: '{blank}' is also an input symbol"
  | .equalMarkers marker =>
    s!"Invalid boundary markers: left and right marker are both '{marker}'"
  | .markersNotInAlphabets markers =>
    "Invalid boundary markers: " ++ Text.quotedList markers
      ++ " missing from the input or tape alphabet"
  | .noInputs => "Invalid boundary markers: no input symbols besides the markers"
  | .foreignSymbols entries =>
    "Transitions use symbols outside the tape alphabet: "
      ++ Text.quotedList (entries.map fun (at_, move) => at_.entryText move)
  | .markersViolated entries =>
    "Transitions violate the boundary markers: "
      ++ Text.quotedList
        (entries.map fun (at_, move) => at_.entryText move ++ " " ++ move.direction.text)
  | .clashingNames names =>
    "Names clash with tape symbols or reserved grammar names: " ++ Text.quotedList names

end Defect

/-! ## 2. The inspections -/

namespace Automaton

/-- The names of the symbols that thread through the generation of a configuration. -/
def reservedNames : List String := ["A0", "A1", "A2", "A3"]

/-- The letters that the tape alphabet lacks. -/
def inputsOffTape (a : Automaton) : List String :=
  a.inputs.filter fun symbol => !a.tapeAlphabet.contains symbol

/-- Every letter, the markers aside, has to be a tape symbol. -/
def alphabetDefect? (a : Automaton) : Option Defect :=
  if a.inputsOffTape.isEmpty then none else some (.inputsNotOnTape a.inputsOffTape)

/-- A blank has to be a tape symbol and no letter; two markers have to differ, to be in both
alphabets, and to leave at least one letter. -/
def boundaryDefect? (a : Automaton) : Option Defect :=
  match a.boundary with
  | .blank blank =>
    if !a.tapeAlphabet.contains blank then some (.blankNotOnTape blank)
    else if a.alphabet.contains blank then some (.blankIsInput blank)
    else none
  | .markers left right =>
    let missing := [left, right].filter fun marker =>
      !(a.alphabet.contains marker && a.tapeAlphabet.contains marker)
    if left = right then some (.equalMarkers left)
    else if !missing.isEmpty then some (.markersNotInAlphabets missing)
    else if a.inputs.isEmpty then some .noInputs
    else none

/-- Whether a symbol may stand on the tape. -/
def isKnown (a : Automaton) (symbol : String) : Bool :=
  a.tapeAlphabet.contains symbol || a.isMarker symbol

/-- The entries that read or write a symbol that may not stand on the tape. -/
def foreignEntries (a : Automaton) : List (Situation × Move) :=
  a.entries.filter fun (at_, move) => !(a.isKnown at_.read && a.isKnown move.write)

/-- Every entry has to read and write symbols that may stand on the tape. -/
def symbolDefect? (a : Automaton) : Option Defect :=
  if a.foreignEntries.isEmpty then none else some (.foreignSymbols a.foreignEntries)

/-- Whether an entry leaves the markers in their places: the left marker is written back
while the head steps right, the right marker is written back while the head steps left, and a marker
is written nowhere else. -/
def preservesMarkers (left right : String) (at_ : Situation) (move : Move) : Bool :=
  if at_.read = left then move.write = left && move.direction = .right
  else if at_.read = right then move.write = right && move.direction = .left
  else move.write ≠ left && move.write ≠ right

/-- Every entry of a bounded automaton has to leave the markers in their places. -/
def markerDefect? (a : Automaton) : Option Defect :=
  match a.boundary with
  | .blank _ => none
  | .markers left right =>
    let violations := a.entries.filter fun (at_, move) => !preservesMarkers left right at_ move
    if violations.isEmpty then none else some (.markersViolated violations)

/-- Whether a symbol belongs to one of the alphabets. -/
def isSymbol (a : Automaton) (symbol : String) : Bool :=
  a.alphabet.contains symbol || a.tapeAlphabet.contains symbol

/-- The names that a composite symbol could not tell apart: states that are also symbols or
helpers, and the padding label if anything bears its name. -/
def clashes (a : Automaton) : List String :=
  (a.states.toList.filter fun state => a.isSymbol state || reservedNames.contains state)
    ++ if a.isSymbol Symbol.epsilon || a.isState Symbol.epsilon then [Symbol.epsilon] else []

/-- States, symbols, helpers and the padding label have to have different names. -/
def nameDefect? (a : Automaton) : Option Defect :=
  if a.clashes.isEmpty then none else some (.clashingNames a.clashes)

/-- The first defect of an automaton, in the order of the inspections. -/
def defect? (a : Automaton) : Option Defect :=
  a.alphabetDefect? <|> a.boundaryDefect? <|> a.symbolDefect? <|> a.markerDefect? <|> a.nameDefect?

/-- The parts of the automaton fit together. -/
def WellFormed (a : Automaton) : Prop := a.defect? = none

instance (a : Automaton) : Decidable a.WellFormed :=
  inferInstanceAs (Decidable (a.defect? = none))

/-- **A well-formed automaton passes each inspection.** -/
theorem wellFormed_iff (a : Automaton) :
    a.WellFormed ↔ a.alphabetDefect? = none ∧ a.boundaryDefect? = none ∧ a.symbolDefect? = none ∧
      a.markerDefect? = none ∧ a.nameDefect? = none := by
  unfold WellFormed defect?
  cases a.alphabetDefect? <;> cases a.boundaryDefect? <;> cases a.symbolDefect? <;>
    cases a.markerDefect? <;> simp

end Automaton

end TapeGrammar
