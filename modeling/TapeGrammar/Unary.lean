import TapeGrammar.Fault
import TapeGrammar.Room
import TapeGrammar.Symbol

/-!
# Unary numbers

The number `n` is written as a word of `n` digits `1`.
-/

namespace TapeGrammar.Unary

/-- The digit that unary numbers are made of. -/
def digit : String := "1"

/-- The word for a number. -/
def word (n : Nat) : Word := List.replicate n digit

@[simp]
theorem length_word (n : Nat) : (word n).length = n :=
  List.length_replicate

/-- The number of letters in the longest word: the reference to a letter takes 24 bytes, and all of
them are made at once. -/
def maxLength : Nat := Room.atOnce 24

/-- The word for a number, if there is room for it.  What else a check of the number needs room for is
said in `TapeGrammar.Derivation.Confined`. -/
def word? (n : Nat) : Except Fault Word :=
  if n ≤ maxLength then .ok (word n) else .error (.tooLong n)

end TapeGrammar.Unary
