import Std.Data.TreeMap
import TapeGrammar.Production

/-!
# Production tables

A table groups productions by their left side.  Left sides are kept in the order of symbols, so a
table is always listed in the same way; the ALTERNATIVES of a left side keep the order in which they
were inserted, and the first of them is the one that a derivation takes.  A production that is
already there is not inserted again.
-/

namespace TapeGrammar

/-- An ordered set of productions, grouped by left side. -/
structure Productions where
  rules : Std.TreeMap Form (List Form)

namespace Productions

/-- The table without productions. -/
def empty : Productions := ⟨∅⟩

/-- The right sides of a left side in the order of insertion; `none` if there are none. -/
def alternatives? (table : Productions) (left : Form) : Option (List Form) :=
  table.rules[left]?

/-- The right side that was inserted first. -/
def first? (table : Productions) (left : Form) : Option Form :=
  (table.alternatives? left).bind List.head?

/-- Whether a production is in the table. -/
def contains (table : Productions) (p : Production) : Bool :=
  (table.alternatives? p.left).any fun alternatives => alternatives.contains p.right

instance : Membership Production Productions := ⟨fun table p => table.contains p = true⟩

instance (p : Production) (table : Productions) : Decidable (p ∈ table) :=
  inferInstanceAs (Decidable (table.contains p = true))

/-- Adds a production, and says whether it is new. -/
def insert (table : Productions) (p : Production) : Bool × Productions :=
  let alternatives := (table.alternatives? p.left).getD []
  if alternatives.contains p.right then (false, table)
  else (true, ⟨table.rules.insert p.left (alternatives ++ [p.right])⟩)

/-- The table of the listed productions. -/
def ofList (productions : List Production) : Productions :=
  productions.foldl (fun table p => (table.insert p).2) empty

/-- The productions, ordered by left side; the alternatives of a left side in the order of
insertion. -/
def toList (table : Productions) : List Production :=
  table.rules.toList.flatMap fun (left, alternatives) => alternatives.map (Production.mk left)

/-- The number of productions. -/
def length (table : Productions) : Nat := table.toList.length

/-- Whether there are no productions. -/
def isEmpty (table : Productions) : Bool := table.rules.isEmpty

/-- The productions in order, provided that every left side has between one and three symbols. -/
def checked (table : Productions) : Except Fault (List Production) :=
  table.toList.mapM fun p => Production.make p.left p.right

/-- The left sides that have more than one alternative. -/
def ambiguous (table : Productions) : List Form :=
  (table.rules.toList.filter fun (_, alternatives) => 1 < alternatives.length).map Prod.fst

/-- Every production in its written form. -/
def lines (table : Productions) : List String := table.toList.map Production.text

end Productions

end TapeGrammar
