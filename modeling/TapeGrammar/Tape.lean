/-!
# Tapes that grow in both directions

The cells of a tape are numbered by the integers.  They are kept in two arrays, one for the
positions 0, 1, 2, … and one for the positions -1, -2, -3, …, so writing to the left of everything
written so far moves no cell.  A position that neither array reaches has not been written.
-/

namespace TapeGrammar

/-- The written cells of a tape. -/
structure Tape where
  /-- The cells at 0, 1, 2, … -/
  right : Array String
  /-- The cells at -1, -2, -3, … -/
  left : Array String
  deriving DecidableEq

namespace Tape

/-- The tape without written cells. -/
def empty : Tape := ⟨#[], #[]⟩

/-- The tape that holds the given symbols from position 0 on. -/
def ofList (symbols : List String) : Tape := ⟨symbols.toArray, #[]⟩

/-- The written symbol at a position. -/
def get? (tape : Tape) : Int → Option String
  | .ofNat i => tape.right[i]?
  | .negSucc i => tape.left[i]?

/-- Puts a symbol at an index.  An array that is too short is filled up. -/
def put (cells : Array String) (index : Nat) (filler symbol : String) : Array String :=
  if index < cells.size then cells.setIfInBounds index symbol
  else (cells ++ Array.replicate (index - cells.size) filler).push symbol

/-- Writes a symbol at a position.  Cells between it and those written so far get the filler. -/
def write (tape : Tape) (filler : String) (position : Int) (symbol : String) : Tape :=
  match position with
  | .ofNat i => { tape with right := put tape.right i filler symbol }
  | .negSucc i => { tape with left := put tape.left i filler symbol }

/-- The first written position, or 0 if nothing is written left of it. -/
def first (tape : Tape) : Int := -(tape.left.size : Int)

/-- The last written position at or behind 0, or -1. -/
def last (tape : Tape) : Int := (tape.right.size : Int) - 1

end Tape

end TapeGrammar
