import TapeGrammar.Descriptor.Reader

/-!
# The sections of a descriptor

A descriptor is a text of lines:

```text
line 1: the input alphabet
line 2: the tape alphabet
line 3: the blank symbol, or the left and the right marker
line 4: the start state
line 5: the final states, possibly none
then:   state, symbol read, next state, symbol written, left or right
```

Symbols are separated by spaces and tabs.  A symbol is any run of other characters of the line that
does not begin with `#`; such a run begins a comment that goes on to the end of the line.  Behind
the fifth line, lines without a transition may stand anywhere.

This module reads the text into its SECTIONS.  What the sections mean -- whether the boundary fits
the kind of machine, whether a transition is defined twice -- is decided afterwards.
-/

namespace TapeGrammar.Descriptor

open Reader (Located many optional named located literal lineEnd)

/-! ## 1. Separators, comments and symbols -/

/-- Spaces and tabs separate the symbols of a line. -/
def isSeparator (c : Char) : Bool := c == ' ' || c == '\t'

/-- The characters that a symbol may hold. -/
def isSymbolChar (c : Char) : Bool := !(isSeparator c || SyntaxError.isLineEnd c)

/-- Passes over any number of spaces and tabs. -/
def skipSeparators : Reader Unit := do
  let _ ← Reader.takeWhile isSeparator

/-- Passes over spaces and tabs, of which there has to be at least one. -/
def separator : Reader Unit := do
  let blanks ← Reader.takeWhile isSeparator
  if blanks.isEmpty then Reader.fail

/-- Passes over a comment, if there is one: from `#` up to the end of the line. -/
def skipComment : Reader Unit := do
  let begun ← optional (literal ['#'])
  if begun.isSome then
    let _ ← Reader.takeWhile fun c => !SyntaxError.isLineEnd c

/-- A symbol: a run of characters that neither separate nor end a line, not beginning with `#`. -/
def symbol : Reader String := named .symbol do
  let comment ← optional (literal ['#'])
  if comment.isSome then Reader.fail
  let run ← Reader.takeWhile isSymbolChar
  if run.isEmpty then Reader.fail
  return String.ofList run

/-- One or more symbols of a line. -/
def symbols : Reader (List String) := named .symbols do
  let first ← symbol
  let others ← many (do separator; symbol)
  return first :: others

/-! ## 2. Lines -/

/-- The keyword of a direction. -/
def direction : Reader Direction := named .direction do
  if (← optional (literal "left".toList)).isSome then return .left
  literal "right".toList
  return .right

/-- An entry of the transition function. -/
def transition : Reader (Situation × Move) := named .transition do
  let state ← symbol
  separator
  let read ← symbol
  separator
  let next ← symbol
  separator
  let write ← symbol
  separator
  let direction ← direction
  return (⟨state, read⟩, ⟨next, write, direction⟩)

/-- What may stand behind the symbols of one of the first four lines. -/
def restOfHeaderLine : Reader Unit := do
  skipSeparators
  skipComment
  lineEnd

/-- The rest of a line behind the header: a transition, a comment, both or neither. -/
def line : Reader (Option (Located (Situation × Move))) := do
  skipSeparators
  let entry ← optional (located transition)
  skipSeparators
  skipComment
  return entry

/-! ## 3. The descriptor -/

/-- A descriptor as it is written: repeated symbols and transitions are still there. -/
structure Sections where
  alphabet : List String
  tapeAlphabet : List String
  boundary : Located (List String)
  start : String
  finals : List String
  entries : List (Located (Situation × Move))

/-- The whole text. -/
def sections : Reader Sections := named .descriptor do
  skipSeparators
  let alphabet ← named .alphabet symbols
  restOfHeaderLine
  skipSeparators
  let tapeAlphabet ← named .tapeAlphabet symbols
  restOfHeaderLine
  skipSeparators
  let boundary ← named .boundary (located symbols)
  restOfHeaderLine
  skipSeparators
  let start ← named .start symbol
  restOfHeaderLine
  skipSeparators
  let finals ← named .finals (optional symbols)
  let first ← line
  let others ← many (do lineEnd; line)
  named .endOfText Reader.endOfText
  return {
    alphabet, tapeAlphabet, boundary, start
    finals := finals.getD []
    entries := (first :: others).filterMap id }

namespace Sections

/-- Reads a text into its sections, or says what was missed at the furthest place. -/
def ofText (text : List Char) : Except SyntaxError Sections :=
  match sections ⟨0, text⟩ .none with
  | (some (found, _), _) => .ok found
  | (none, attempts) =>
    .error (.atPlace text attempts.furthest (.expected attempts.missed))

end Sections

end TapeGrammar.Descriptor
