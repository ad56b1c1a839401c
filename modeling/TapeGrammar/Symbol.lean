import Std.Data.TreeMap
import TapeGrammar.Fault

/-!
# Grammar symbols

A sentential form is a row of symbols.  A TERMINAL is one letter of the word that is derived; a
NON-TERMINAL is a list of labels, because the grammars of this library pack a piece of a machine
configuration -- a state, a tape symbol, the input letter a cell was made from -- into one symbol.

Symbols are compared structurally: every terminal comes before every non-terminal, and within a
kind the labels decide.  Section 2 shows that this is a lawful linear order, which is what lets a
sequence of symbols serve as the key of an ordered map.
-/

namespace TapeGrammar

/-! ## 1. Symbols and words -/

/-- A word is the list of its letters; a letter may have any number of characters. -/
abbrev Word := List String

/-- A grammar symbol: a letter of the derived word, or a composite of labels. -/
inductive Symbol where
  | terminal (label : String)
  | nonTerminal (labels : List String)

namespace Symbol

/-- Whether two lists of labels are the same. -/
def sameLabels : List String → List String → Bool
  | [], [] => true
  | a :: as, b :: bs => if a = b then sameLabels as bs else false
  | _, _ => false

theorem sameLabels_iff {as bs : List String} : sameLabels as bs = true ↔ as = bs := by
  induction as generalizing bs with
  | nil => cases bs <;> simp [sameLabels]
  | cons a as ih =>
    cases bs with
    | nil => simp [sameLabels]
    | cons b bs =>
      by_cases h : a = b
      · simp [sameLabels, h, ih]
      · simp [sameLabels, h]

/-- Whether two symbols are the same. -/
def same : Symbol → Symbol → Bool
  | .terminal a, .terminal b => a = b
  | .nonTerminal as, .nonTerminal bs => sameLabels as bs
  | _, _ => false

theorem same_iff {a b : Symbol} : same a b = true ↔ a = b := by
  cases a <;> cases b <;> simp [same, sameLabels_iff]

instance : DecidableEq Symbol := fun _ _ => decidable_of_iff _ same_iff

/-- The label that stands for "no input letter" in a padding cell, and for the empty sequence. -/
def epsilon : String := "ε"

/-- A composite symbol carries at most this many labels. -/
def labelLimit : Nat := 5

/-- The composite of some labels, if there are between one and five of them. -/
def composite (labels : List String) : Except Fault Symbol :=
  if 1 ≤ labels.length ∧ labels.length ≤ labelLimit then .ok (.nonTerminal labels)
  else .error (.labelCount labels.length)

/-- All labels of a symbol, in order.  A terminal has exactly one. -/
def labels : Symbol → List String
  | .terminal label => [label]
  | .nonTerminal labels => labels

/-- Whether the symbol is a letter of the derived word. -/
def isTerminal : Symbol → Bool
  | .terminal _ => true
  | .nonTerminal _ => false

/-- The letter that a terminal stands for. -/
def letter? : Symbol → Option String
  | .terminal label => some label
  | .nonTerminal _ => none

/-- The written form: a single label stands for itself, any other number is put in brackets. -/
def text (s : Symbol) : String :=
  match s.labels with
  | [label] => label
  | labels => "[" ++ ", ".intercalate labels ++ "]"

/-! ## 2. The order of symbols -/

/-- Terminals come before non-terminals; within a kind the labels are compared in order. -/
def compare : Symbol → Symbol → Ordering
  | .terminal a, .terminal b => Ord.compare a b
  | .terminal _, .nonTerminal _ => .lt
  | .nonTerminal _, .terminal _ => .gt
  | .nonTerminal a, .nonTerminal b => Ord.compare a b

instance : Ord Symbol := ⟨Symbol.compare⟩

instance : Std.OrientedOrd Symbol where
  eq_swap {a b} :=
    match a, b with
    | .terminal a, .terminal b => Std.OrientedOrd.eq_swap (a := a) (b := b)
    | .terminal _, .nonTerminal _ => rfl
    | .nonTerminal _, .terminal _ => rfl
    | .nonTerminal a, .nonTerminal b => Std.OrientedOrd.eq_swap (a := a) (b := b)

instance : Std.TransOrd Symbol where
  isLE_trans {a b c} hab hbc :=
    match a, b, c with
    | .terminal a, .terminal b, .terminal c =>
      Std.TransOrd.isLE_trans (a := a) (b := b) (c := c) hab hbc
    | .terminal _, _, .nonTerminal _ => rfl
    | .terminal _, .nonTerminal _, .terminal _ => nomatch hbc
    | .nonTerminal _, .terminal _, _ => nomatch hab
    | .nonTerminal _, .nonTerminal _, .terminal _ => nomatch hbc
    | .nonTerminal a, .nonTerminal b, .nonTerminal c =>
      Std.TransOrd.isLE_trans (a := a) (b := b) (c := c) hab hbc

instance : Std.LawfulEqOrd Symbol where
  compare_self {a} :=
    match a with
    | .terminal a => Std.ReflOrd.compare_self (a := a)
    | .nonTerminal a => Std.ReflOrd.compare_self (a := a)
  eq_of_compare {a b} h :=
    match a, b with
    | .terminal a, .terminal b =>
      congrArg Symbol.terminal (Std.LawfulEqOrd.eq_of_compare (a := a) (b := b) h)
    | .terminal _, .nonTerminal _ => nomatch h
    | .nonTerminal _, .terminal _ => nomatch h
    | .nonTerminal a, .nonTerminal b =>
      congrArg Symbol.nonTerminal (Std.LawfulEqOrd.eq_of_compare (a := a) (b := b) h)

end Symbol

end TapeGrammar
