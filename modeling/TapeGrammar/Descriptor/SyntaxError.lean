import TapeGrammar.Automaton

/-!
# Syntax errors

Where a descriptor text is malformed, and how that is shown: the number of the line and of the
column, the line itself, a mark below it and the reason.

```text
 --> 3:1
  |
3 | B
  | ^
  |
  = Expected a left and a right boundary marker, found 1 symbols
```

Lines end at a line feed, alone or after a carriage return.  A carriage return on its own counts as
a character of its line, although the shown line leaves it out.
-/

namespace TapeGrammar.Descriptor

/-! ## 1. The parts of a descriptor -/

/-- The parts of a descriptor that can be missed at a place of the text. -/
inductive Part where
  | endOfText
  | symbol
  | symbols
  | alphabet
  | tapeAlphabet
  | boundary
  | start
  | finals
  | direction
  | transition
  | descriptor
  deriving DecidableEq

namespace Part

/-- The name of a part. -/
def text : Part → String
  | .endOfText => "EOI"
  | .symbol => "symbol"
  | .symbols => "symbols"
  | .alphabet => "alphabet"
  | .tapeAlphabet => "tape_alphabet"
  | .boundary => "boundary"
  | .start => "start"
  | .finals => "finals"
  | .direction => "direction"
  | .transition => "transition"
  | .descriptor => "descriptor"

/-- All parts, in the order in which they are listed. -/
def all : List Part :=
  [.endOfText, .symbol, .symbols, .alphabet, .tapeAlphabet, .boundary, .start, .finals, .direction,
    .transition, .descriptor]

/-- A list of alternatives: `a`, `a or b`, `a, b, or c`. -/
def listText : List String → String
  | [] => ""
  | [a] => a
  | [a, b] => a ++ " or " ++ b
  | names => ", ".intercalate names.dropLast ++ ", or " ++ (names.getLast?.getD "")

end Part

/-! ## 2. Errors -/

/-- Why a text is malformed. -/
inductive Reason where
  /-- None of the listed parts is found. -/
  | expected (parts : List Part)
  /-- The boundary line does not hold as many symbols as the kind of machine asks for. -/
  | boundaryArity (kind : Kind) (found : Nat)
  /-- The transition function is defined twice in one situation. -/
  | duplicateMove (at_ : Situation)
  deriving DecidableEq

/-- The text of a reason. -/
def Reason.message : Reason → String
  | .expected parts =>
    "expected " ++ Part.listText ((Part.all.filter parts.contains).map Part.text)
  | .boundaryArity .unbounded found => s!"Expected a single blank symbol, found {found}"
  | .boundaryArity .bounded found =>
    s!"Expected a left and a right boundary marker, found {found} symbols"
  | .duplicateMove at_ => s!"Duplicate transition for state {at_.state} on {at_.read}"

/-- What is marked below the shown line. -/
inductive Mark where
  /-- The place at which reading stopped. -/
  | place
  /-- A stretch of so many characters. -/
  | stretch (width : Nat)
  deriving DecidableEq

namespace Mark

/-- The mark itself. -/
def chars : Mark → List Char
  | .place => ['^', '-', '-', '-']
  | .stretch width =>
    if width ≤ 1 then ['^'] else '^' :: List.replicate (width - 2) '-' ++ ['^']

end Mark

/-- A malformed text. -/
structure SyntaxError where
  line : Nat
  column : Nat
  shown : List Char
  mark : Mark
  reason : Reason
  deriving DecidableEq

namespace SyntaxError

/-! ## 3. Locating an offset -/

/-- The line and the column of the place `offset` characters further on; `line` and `column` are
those of the first character of `text`. -/
def locateFrom (line column : Nat) : (offset : Nat) → (text : List Char) → Nat × Nat
  | 0, _ => (line, column)
  | _ + 1, [] => (line, column)
  | offset + 1, '\n' :: rest => locateFrom (line + 1) 1 offset rest
  | offset + 1, '\r' :: '\n' :: rest =>
    match offset with
    | 0 => (line + 1, 1)
    | offset + 1 => locateFrom (line + 1) 1 offset rest
  | offset + 1, _ :: rest => locateFrom line (column + 1) offset rest

/-- The line and the column of an offset, both counted from 1. -/
def locate (text : List Char) (offset : Nat) : Nat × Nat := locateFrom 1 1 offset text

/-- The characters between the line feeds around an offset, the closing one included. -/
def lineAround (text : List Char) (offset : Nat) : List Char :=
  let before := ((text.take offset).reverse.takeWhile (· ≠ '\n')).reverse
  let after := text.drop offset
  before ++ after.takeWhile (· ≠ '\n') ++ (after.dropWhile (· ≠ '\n')).take 1

/-- Whether a character ends a line. -/
def isLineEnd (c : Char) : Bool := c == '\r' || c == '\n'

/-- A line without the characters that end lines. -/
def withoutLineEnds (line : List Char) : List Char := line.filter fun c => !isLineEnd c

/-- A line in which the characters that end lines are shown by pictures of them. -/
def withLineEndsShown (line : List Char) : List Char :=
  line.map fun c => if c = '\r' then '␍' else if c = '\n' then '␊' else c

/-- The error that reading stopped at an offset.  A character that ends a line is made visible if
it is the one at which reading stopped. -/
def atPlace (text : List Char) (offset : Nat) (reason : Reason) : SyntaxError where
  line := (locate text offset).1
  column := (locate text offset).2
  shown :=
    if (text.drop offset).head?.any isLineEnd then withLineEndsShown (lineAround text offset)
    else withoutLineEnds (lineAround text offset)
  mark := .place
  reason := reason

/-- The error that a stretch of the text is not as it has to be. -/
def onStretch (text : List Char) (offset width : Nat) (reason : Reason) : SyntaxError where
  line := (locate text offset).1
  column := (locate text offset).2
  shown := withoutLineEnds (lineAround text offset)
  mark := .stretch width
  reason := reason

/-! ## 4. The report -/

/-- What stands left of the mark: a tab below a tab, a space below anything else. -/
def indent (e : SyntaxError) : List Char :=
  (e.shown.take (e.column - 1)).map fun c => if c = '\t' then '\t' else ' '

/-- The report: place, line, mark and reason. -/
def message (e : SyntaxError) : String :=
  let number := toString e.line
  let margin := String.ofList (List.replicate number.length ' ')
  "\n".intercalate
    [s!"{margin}--> {e.line}:{e.column}",
      s!"{margin} |",
      s!"{number} | " ++ String.ofList e.shown,
      s!"{margin} | " ++ String.ofList (e.indent ++ e.mark.chars),
      s!"{margin} |",
      s!"{margin} = " ++ e.reason.message]

end SyntaxError

end TapeGrammar.Descriptor
