import Mathlib.Data.List.Sort
import TapeGrammar.Proofs.Table

/-!
# Inserting productions one after the other

A table is filled by insertions, and what it holds is decided by their sequence.  A left side has the right
sides that have been inserted for it, each of them once, in the order in which they first came
(`alternatives?_ofList`), and an insertion answers whether its production is new (`insertAll_iff`).  The
left sides are in the order of symbols, in whichever order they came (`toList_ofList`).

Together this says that a table is an ordered set of productions (`table_is_ordered_set`).
-/

namespace TapeGrammar.Productions

variable {table : Productions} {p : Production} {left right : Form} {l : List Production}

/-! ## 1. The right sides of a left side -/

/-- The right sides that a list of productions has for a left side, each of them once, in the order in
which they first occur. -/
def rightsOf (l : List Production) (left : Form) : List Form :=
  ((l.filter fun p => p.left = left).map Production.right).eraseDups

theorem mem_rightsOf : right ∈ rightsOf l left ↔ (⟨left, right⟩ : Production) ∈ l := by
  simp only [rightsOf, List.mem_eraseDups, List.mem_map, List.mem_filter, decide_eq_true_eq]
  constructor
  · rintro ⟨p, ⟨hmem, rfl⟩, rfl⟩
    exact hmem
  · intro hmem
    exact ⟨⟨left, right⟩, ⟨hmem, rfl⟩, rfl⟩

theorem rightsOf_eq_nil_iff : rightsOf l left = [] ↔ ∀ p ∈ l, p.left ≠ left := by
  rw [List.eq_nil_iff_forall_not_mem]
  constructor
  · rintro h p hmem rfl
    exact h p.right (mem_rightsOf.mpr hmem)
  · intro h right hright
    exact h _ (mem_rightsOf.mp hright) rfl

/-- **One more production adds its right side behind those of its left side**, unless the list has it
already. -/
theorem rightsOf_concat (l : List Production) (p : Production) (left : Form) :
    rightsOf (l ++ [p]) left =
      if p.left = left ∧ p ∉ l then rightsOf l left ++ [p.right] else rightsOf l left := by
  by_cases hleft : p.left = left
  · subst hleft
    have hmem : p.right ∈ (l.filter fun q => q.left = p.left).map Production.right ↔ p ∈ l := by
      rw [← List.mem_eraseDups]
      exact mem_rightsOf
    by_cases hold : p ∈ l
    · simp [rightsOf, List.eraseDups_append, List.removeAll, hold, hmem.mpr hold]
    · simp [rightsOf, List.eraseDups_append, List.removeAll, List.eraseDups_cons, hold, mt hmem.mp hold]
  · simp [rightsOf, hleft]

/-! ## 2. Insertions -/

/-- Inserts one production after the other: what the insertions answer, and the table in the end. -/
def insertAll (table : Productions) : List Production → List Bool × Productions
  | [] => ([], table)
  | p :: l =>
    let rest := insertAll (table.insert p).2 l
    ((table.insert p).1 :: rest.1, rest.2)

theorem snd_insertAll (table : Productions) (l : List Production) :
    (insertAll table l).2 = l.foldl (fun table p => (table.insert p).2) table := by
  induction l generalizing table with
  | nil => rfl
  | cons p l ih => exact ih (table.insert p).2

theorem length_insertAll (table : Productions) (l : List Production) :
    (insertAll table l).1.length = l.length := by
  induction l generalizing table with
  | nil => rfl
  | cons p l ih => simp [insertAll, ih]

/-- An insertion answers whether its production is new. -/
theorem fst_insert_iff : (table.insert p).1 = true ↔ p ∉ table := by
  by_cases hmem : p ∈ table
  · simp [insert_of_mem hmem, hmem]
  · simp [insert_of_not_mem hmem, hmem]

/-- **An insertion answers "new" if its production is neither in the table at the beginning nor among those
inserted before it.** -/
theorem insertAll_iff (table : Productions) {i : Nat} (hi : i < l.length) :
    (insertAll table l).1[i]? = some true ↔ l[i] ∉ table ∧ l[i] ∉ l.take i := by
  induction l generalizing table i with
  | nil => exact absurd hi (Nat.not_lt_zero i)
  | cons p l ih =>
    cases i with
    | zero => simp [insertAll, fst_insert_iff]
    | succ i =>
      have hrest := ih (table.insert p).2 (Nat.lt_of_succ_lt_succ hi)
      simp only [insertAll, List.getElem?_cons_succ, List.getElem_cons_succ, List.take_succ_cons,
        List.mem_cons, hrest, mem_insert, not_or]
      exact and_assoc.trans and_left_comm

/-- **The alternatives of a left side are what has been inserted for it**, each once, in the order of the
first insertions. -/
theorem alternatives?_ofList (l : List Production) (left : Form) :
    (ofList l).alternatives? left =
      if rightsOf l left = [] then none else some (rightsOf l left) := by
  induction l using List.reverseRecOn with
  | nil => simp [ofList, empty, alternatives?, rightsOf]
  | append_singleton l p ih =>
    have hrights : ((ofList l).alternatives? left).getD [] = rightsOf l left := by
      rw [ih]
      split
      · rename_i hnil
        exact hnil.symm
      · rfl
    -- table and list grow under the same condition
    simp only [ofList_concat, alternatives?_insert, rightsOf_concat, hrights, mem_ofList]
    split
    · simp
    · exact ih

/-! ## 3. Listing -/

/-- No left side is kept without an alternative, so a table without productions is empty. -/
theorem Distinct.length_eq_zero_iff (h : Distinct table) :
    table.length = 0 ↔ table.isEmpty = true := by
  have hnil : table.toList = [] ↔ table.rules.toList = [] := by
    rw [toList, List.flatMap_eq_nil_iff, List.eq_nil_iff_forall_not_mem]
    constructor
    · rintro hnone ⟨left, rights⟩ hrule
      have halt := Std.TreeMap.mem_toList_iff_getElem?_eq_some.mp hrule
      exact (h left rights halt).1 (List.map_eq_nil_iff.mp (hnone _ hrule))
    · intro hnone rule hrule
      exact absurd hrule (hnone rule)
  rw [length, List.length_eq_zero_iff, hnil, isEmpty, ← Std.TreeMap.isEmpty_toList, List.isEmpty_iff]

/-- The left sides in order. -/
def lefts (table : Productions) : List Form := table.rules.keys

theorem lefts_ordered (table : Productions) :
    table.lefts.Pairwise fun left left' => compare left left' = .lt :=
  Std.TreeMap.ordered_keys

/-- **The order of symbols leaves no choice**: what is strictly increasing is determined by its members. -/
theorem eq_of_ordered {lefts lefts' : List Form}
    (h : lefts.Pairwise fun left left' => compare left left' = .lt)
    (h' : lefts'.Pairwise fun left left' => compare left left' = .lt)
    (hmem : ∀ left, left ∈ lefts ↔ left ∈ lefts') : lefts = lefts' := by
  have : Std.Irrefl fun left left' : Form => compare left left' = .lt :=
    ⟨fun left hlt => by simp at hlt⟩
  have : Std.Antisymm fun left left' : Form => compare left left' = .lt :=
    ⟨fun left left' hlt hgt => absurd hgt (Std.OrientedCmp.not_lt_of_lt hlt)⟩
  exact h.eq_of_mem_iff h' hmem

theorem mem_lefts_ofList : left ∈ (ofList l).lefts ↔ ∃ p ∈ l, p.left = left := by
  have hsome : left ∈ (ofList l).lefts ↔ (ofList l).alternatives? left ≠ none := by
    rw [lefts, Std.TreeMap.mem_keys, alternatives?, Std.TreeMap.mem_iff_isSome_getElem?,
      Option.isSome_iff_ne_none]
  rw [hsome, alternatives?_ofList, Ne, ite_eq_left_iff]
  simp [rightsOf_eq_nil_iff]

theorem rights_of_mem_rules {rights : List Form} (h : (left, rights) ∈ (ofList l).rules.toList) :
    rights = rightsOf l left := by
  have hsome := alternatives?_ofList l left
  rw [alternatives?, Std.TreeMap.mem_toList_iff_getElem?_eq_some.mp h] at hsome
  split at hsome
  · cases hsome
  · exact Option.some.inj hsome

/-- **The productions are listed by left side**, and those of one left side in the order in which they were
first inserted. -/
theorem toList_ofList (l : List Production) :
    (ofList l).toList =
      (ofList l).lefts.flatMap fun left => (rightsOf l left).map (Production.mk left) := by
  rw [toList, lefts, ← Std.TreeMap.map_fst_toList_eq_keys, List.flatMap_map]
  refine List.flatMap_congr ?_
  rintro ⟨left, rights⟩ hrule
  rw [rights_of_mem_rules hrule]

theorem ambiguous_ofList (l : List Production) :
    (ofList l).ambiguous = (ofList l).lefts.filter fun left => 2 ≤ (rightsOf l left).length := by
  rw [ambiguous, lefts, ← Std.TreeMap.map_fst_toList_eq_keys, List.filter_map]
  refine congrArg (List.map Prod.fst) (List.filter_congr ?_)
  rintro ⟨left, rights⟩ hrule
  rw [rights_of_mem_rules hrule]
  rfl

/-- If every left side has between one and three symbols the whole list is given out. -/
theorem checked_of_hasWidth (h : ∀ p ∈ table, p.HasWidth) : table.checked = .ok table.toList := by
  have hall : ∀ ps : List Production, (∀ p ∈ ps, p.HasWidth) →
      ps.mapM (fun p => Production.make p.left p.right) = Except.ok ps := by
    intro ps hps
    induction ps with
    | nil => rfl
    | cons p ps ih =>
      rw [List.mapM_cons, ih fun q hq => hps q (List.mem_cons_of_mem p hq), Production.make,
        if_pos (hps p List.mem_cons_self)]
      rfl
  exact hall table.toList fun p hp => h p (mem_toList.mp hp)

/-! ## 4. Ordered sets -/

/-- **A production table is an ordered set of productions.**  Insert productions into the empty table, one
after the other.

* An insertion answers "new" exactly if its production has not been inserted before.
* A left side has no alternatives if nothing has been inserted for it; otherwise its alternatives are the
  right sides inserted for it, each once, in the order of their first insertions.
* The table holds what has been inserted.  Its length is the number of different productions, and zero
  exactly if the table is empty.
* With the left sides in strictly increasing order, the ambiguous ones are those that have two alternatives
  or more; and if each of them has between one and three symbols, the productions are listed without a
  fault, each once: by left side, and the alternatives of a left side in the order of insertion. -/
theorem table_is_ordered_set {answers : List Bool} (h : insertAll empty l = (answers, table)) :
    (answers.length = l.length ∧
      ∀ i (hi : i < l.length), answers[i]? = some true ↔ l[i] ∉ l.take i) ∧
    (∀ left, (table.alternatives? left = none ↔ ∀ p ∈ l, p.left ≠ left) ∧
      ((∃ p ∈ l, p.left = left) → table.alternatives? left = some (rightsOf l left))) ∧
    (∀ p, table.contains p = true ↔ p ∈ l) ∧
    (table.length = l.toFinset.card ∧ (table.length = 0 ↔ table.isEmpty = true)) ∧
    ∃ lefts : List Form, lefts.Pairwise (fun left left' => compare left left' = .lt) ∧
      (∀ left, left ∈ lefts ↔ ∃ p ∈ l, p.left = left) ∧
      table.ambiguous = lefts.filter (fun left => 2 ≤ (rightsOf l left).length) ∧
      ((∀ p ∈ l, p.HasWidth) → ∃ listed, table.checked = .ok listed ∧
        listed = lefts.flatMap (fun left => (rightsOf l left).map (Production.mk left)) ∧
        listed.Nodup ∧ ∀ p, p ∈ listed ↔ p ∈ l) := by
  obtain rfl : (insertAll empty l).1 = answers := congrArg Prod.fst h
  obtain rfl : ofList l = table := (snd_insertAll empty l).symm.trans (congrArg Prod.snd h)
  refine ⟨⟨length_insertAll empty l, fun i hi => ?_⟩, fun left => ⟨?_, ?_⟩, fun p => mem_ofList,
    ⟨length_ofList_eq_card l, distinct_ofList.length_eq_zero_iff⟩, (ofList l).lefts,
    lefts_ordered _, fun left => mem_lefts_ofList, ambiguous_ofList l, fun hwidth => ?_⟩
  · rw [insertAll_iff empty hi]
    exact and_iff_right not_mem_empty
  · rw [alternatives?_ofList, ite_eq_left_iff, ← rightsOf_eq_nil_iff]
    simp
  · rintro ⟨p, hp, hleft⟩
    have hne : rightsOf l left ≠ [] := fun hnil => rightsOf_eq_nil_iff.mp hnil p hp hleft
    rw [alternatives?_ofList, if_neg hne]
  · refine ⟨(ofList l).toList, checked_of_hasWidth fun p hp => hwidth p (mem_ofList.mp hp),
      toList_ofList l, distinct_ofList.nodup_toList, fun p => ?_⟩
    rw [mem_toList, mem_ofList]

/-- Four insertions: the second repeats the first one, and the third has the least left side. -/
def unsorted : List Production :=
  [⟨[.nonTerminal ["B"]], [.terminal "b"]⟩, ⟨[.nonTerminal ["B"]], [.terminal "b"]⟩,
    ⟨[.nonTerminal ["A"], .nonTerminal ["B"]], []⟩, ⟨[.nonTerminal ["B"]], [.terminal "a"]⟩]

/-- The repetition is dropped and the least left side comes first, but of the right sides of `B` the one
that was inserted first stays before the lesser one. -/
theorem unsorted_is_ordered_set : ∃ table,
    insertAll empty unsorted = ([true, false, true, true], table) ∧
    (∀ p ∈ unsorted, p.HasWidth) ∧
    table.alternatives? [.nonTerminal ["B"]] = some [[.terminal "b"], [.terminal "a"]] ∧
    table.alternatives? [.nonTerminal ["A"]] = none ∧
    table.length = 3 ∧
    table.ambiguous = [[.nonTerminal ["B"]]] ∧
    table.checked = .ok [⟨[.nonTerminal ["A"], .nonTerminal ["B"]], []⟩,
      ⟨[.nonTerminal ["B"]], [.terminal "b"]⟩, ⟨[.nonTerminal ["B"]], [.terminal "a"]⟩] := by
  have hinserted : insertAll empty unsorted = ([true, false, true, true], (insertAll empty unsorted).2) :=
    Prod.ext (by decide) rfl
  have hwidth : ∀ p ∈ unsorted, p.HasWidth := by decide
  obtain ⟨-, halternatives, -, ⟨hlength, -⟩, lefts, hordered, hmem, hambiguous, hlisted⟩ :=
    table_is_ordered_set hinserted
  obtain rfl : lefts = [[.nonTerminal ["A"], .nonTerminal ["B"]], [.nonTerminal ["B"]]] := by
    refine eq_of_ordered hordered (by decide) fun left => (hmem left).trans ?_
    simp [unsorted, eq_comm, or_comm]
  obtain ⟨listed, hchecked, rfl, -⟩ := hlisted hwidth
  refine ⟨_, hinserted, hwidth, (halternatives _).2 (by decide), (halternatives _).1.mpr (by decide),
    hlength, hambiguous, hchecked⟩

end TapeGrammar.Productions
