/-!
# Faults

A fault is not an answer about a machine or a word: it says that an operation was used outside its
contract, that a size no longer fits a 64-bit word, or that there is no room for a list in memory.
Nothing is concluded from a computation that ends in a fault, and every operation that can end in one
says so in its type.

A fault has no report.  The program breaks off, and what is said about that is not said by the program.
-/

namespace TapeGrammar

/-- The ways in which an operation can be used outside its contract. -/
inductive Fault where
  /-- A composite symbol was asked for with no label, or with more than five. -/
  | labelCount (count : Nat)
  /-- A production was asked for whose left side has no symbol, or more than three. -/
  | patternWidth (width : Nat)
  /-- A range that ends behind the end of a form was to be replaced. -/
  | outOfRange (stop length : Nat)
  /-- A size left the range of a 64-bit word. -/
  | overflow
  /-- A word was asked for that is too long to be held in memory. -/
  | tooLong (length : Nat)
  /-- A list or a text became too long to be held in memory. -/
  | noRoom
  deriving DecidableEq

/-- The largest size that a 64-bit word can hold. -/
def maxSize : Nat := Nat.pow 2 64 - 1

/-- A size, if it fits a 64-bit word. -/
def fitSize (n : Nat) : Except Fault Nat :=
  if n ≤ maxSize then .ok n else .error .overflow

theorem fitSize_eq_ok_iff {n m : Nat} : fitSize n = .ok m ↔ n = m ∧ n ≤ maxSize := by
  unfold fitSize
  split
  · rename_i h
    simp [h]
  · rename_i h
    simp [h]

end TapeGrammar
