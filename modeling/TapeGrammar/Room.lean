/-!
# Room in memory

A list, like a text, lies in one block of memory, and a block is smaller than 2^63 bytes.  A list
whose length is known beforehand is made at once.  One that grows entry by entry has a block for a
power of two of entries, and gets one twice as large whenever it is full; so there may be no room for
a list that could have been made at once.

How much memory there is in all is not asked: a block that is small enough can always be had.
-/

namespace TapeGrammar.Room

/-- The size of the largest block, in bytes. -/
def maxBlock : Nat := Nat.pow 2 63 - 1

/-- The number of entries in the longest list that is made at once, each of so many bytes. -/
def atOnce (bytes : Nat) : Nat := maxBlock / bytes

/-- The number of entries in the longest list that grows, each of so many bytes. -/
def grown (bytes : Nat) : Nat := Nat.pow 2 (Nat.log2 (atOnce bytes))

/-- The number of productions in the longest trace.  A production takes 48 bytes. -/
def maxTrace : Nat := grown 48

/-- The number of letters that a word may have outside the alphabet; they are collected as references
of 16 bytes. -/
def maxForeign : Nat := grown 16

/-- The number of steps in the largest block for a plan.  A step takes 56 bytes. -/
def maxPlan : Nat := atOnce 56

theorem maxTrace_eq : maxTrace = Nat.pow 2 57 := by
  decide

end TapeGrammar.Room
