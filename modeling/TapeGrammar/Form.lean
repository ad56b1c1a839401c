import TapeGrammar.Symbol

/-!
# Sentential forms

A SENTENTIAL FORM is the row of symbols that a derivation has reached.  This module holds the four
operations on rows that every derivation step is made of: look at a stretch, search a pattern, put
other symbols in the place of a stretch, and -- the three together -- replace the leftmost
occurrence of a pattern.

The search looks at the positions from left to right and stops at the first hit, so of two
overlapping occurrences the earlier one is found.  The empty pattern is never found: a production
with an empty left side would apply everywhere.
-/

namespace TapeGrammar

/-- A row of symbols. -/
abbrev Form := List Symbol

namespace Form

/-! ## 1. Reading a form -/

/-- The written form: the symbols one after the other, `ε` for the empty row. -/
def text (form : Form) : String :=
  if form.isEmpty then Symbol.epsilon else String.join (form.map Symbol.text)

/-- Whether only letters are left. -/
def isTerminal (form : Form) : Bool :=
  form.all Symbol.isTerminal

/-- The letters in order.  Non-terminals are passed over. -/
def letters (form : Form) : Word :=
  form.filterMap Symbol.letter?

/-- The `width` symbols from position `start` on, if there are that many. -/
def stretch? (form : Form) (start width : Nat) : Option Form :=
  if start + width ≤ form.length then some ((form.drop start).take width) else none

/-! ## 2. Searching a pattern -/

/-- Whether a form begins with the symbols of a pattern. -/
def startsWith : (form pattern : Form) → Bool
  | _, [] => true
  | [], _ :: _ => false
  | symbol :: form, first :: pattern => if symbol = first then startsWith form pattern else false

/-- **A form begins with a pattern exactly if the pattern is its beginning.** -/
theorem startsWith_iff {form pattern : Form} :
    form.startsWith pattern = true ↔ pattern <+: form := by
  induction pattern generalizing form with
  | nil => simp [startsWith]
  | cons first pattern ih =>
    cases form with
    | nil => simp [startsWith]
    | cons symbol form =>
      simp only [startsWith, List.cons_prefix_cons]
      split
      · rename_i h
        rw [ih]
        exact ⟨fun hp => ⟨h.symm, hp⟩, fun hp => hp.2⟩
      · rename_i h
        constructor
        · intro hf
          cases hf
        · intro hp
          exact absurd hp.1.symm h

/-- The first position, counted from `start`, at which `pattern` occurs in `form`. -/
def findFrom (pattern : Form) : (start : Nat) → (form : Form) → Option Nat
  | _, [] => none
  | start, symbol :: rest =>
    if startsWith (symbol :: rest) pattern then some start else findFrom pattern (start + 1) rest

/-- The lowest position at which `pattern` occurs; the empty pattern occurs nowhere. -/
def find? (form pattern : Form) : Option Nat :=
  if pattern.isEmpty then none else findFrom pattern 0 form

/-! ## 3. Replacing -/

/-- Puts `new` in the place of the `length` symbols from `start` on. -/
def splice (form : Form) (start length : Nat) (new : Form) : Form :=
  form.take start ++ (new ++ form.drop (start + length))

/-- Like `splice`, but refuses a stretch that ends behind the form. -/
def replace (form : Form) (start length : Nat) (new : Form) : Except Fault Form :=
  if start + length ≤ form.length then .ok (form.splice start length new)
  else .error (.outOfRange (start + length) form.length)

/-- Replaces the leftmost occurrence of `left` by `right`, if there is one. -/
def replaceFirst? (form left right : Form) : Option Form :=
  (form.find? left).map fun start => form.splice start left.length right

end Form

end TapeGrammar
