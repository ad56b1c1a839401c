import TapeGrammar.Fault

/-!
# Sizes in text

A size is written in decimal digits, with or without a plus sign before them, and has to fit a
64-bit word.
-/

namespace TapeGrammar.Text

/-- The value of a decimal digit.  Only the ten ASCII digits count. -/
def digit? (c : Char) : Option Nat :=
  if '0' ≤ c ∧ c ≤ '9' then some (c.toNat - '0'.toNat) else none

/-- The number that a row of digits continues, `number` being what has been read so far. -/
def digitsFrom? (number : Nat) : List Char → Option Nat
  | [] => some number
  | c :: cs => do digitsFrom? (10 * number + (← digit? c)) cs

/-- The size that a text denotes. -/
def size? (text : String) : Option Nat :=
  let digits :=
    match text.toList with
    | '+' :: rest => rest
    | chars => chars
  if digits.isEmpty then none else (digitsFrom? 0 digits).filter (· ≤ maxSize)

end TapeGrammar.Text
