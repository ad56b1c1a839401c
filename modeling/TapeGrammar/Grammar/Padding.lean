import TapeGrammar.Automaton
import TapeGrammar.Fault

/-!
# Padding

A grammar can only generate finitely many cells, but a Turing machine may walk arbitrarily far from
its word.  The PADDING is the number of blank cells that are generated on either side.  When a run
reaches the end of what was generated, the padding on that side is doubled and the derivation is
made again.
-/

namespace TapeGrammar

/-- The numbers of blank cells to the left and to the right of a word. -/
structure Padding where
  left : Nat
  right : Nat
  deriving DecidableEq

namespace Padding

/-- The padding that a word of the given length is first tried with: one blank cell to the left and
two more cells to the right than the word has. -/
def forLength (length : Nat) : Except Fault Padding := do
  let right ← fitSize (length + 2)
  return ⟨1, right⟩

/-- Twice the padding on one side, and at least two cells there. -/
def double (padding : Padding) : Direction → Except Fault Padding
  | .left => do
    let left ← fitSize (max padding.left 1 * 2)
    return { padding with left }
  | .right => do
    let right ← fitSize (max padding.right 1 * 2)
    return { padding with right }

end Padding

end TapeGrammar
