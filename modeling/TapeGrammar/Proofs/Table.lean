import Mathlib.Data.Finset.Card
import Mathlib.Data.List.Induction
import TapeGrammar.Grammar.Table

/-!
# Looking productions up

A table made of a list holds exactly the productions of the list, and a derivation that looks a left
side up is given the right side of one of them, if there is one.  Which one it is does not matter
where the left side has a single alternative; it does matter that a production of the list is never
missed.  What an insertion does is said once (`alternatives?_insert`), and a table made of a list is looked
at by induction on the insertions, with the latest one last.

A left side may have several alternatives.  The table is UNAMBIGUOUS if none has.

A table drops what is inserted twice, so it has as many productions as the list that it is made of only
if the list has no repetitions (`length_ofList`).
-/

namespace TapeGrammar.Productions

variable {table : Productions} {p q : Production} {left right : Form} {l : List Production}

/-! ## 1. Membership -/

theorem mem_iff : p ∈ table ↔ ∃ rights, table.alternatives? p.left = some rights ∧
    p.right ∈ rights := by
  show table.contains p = true ↔ _
  unfold contains
  cases table.alternatives? p.left <;> simp

theorem mem_iff_getD : p ∈ table ↔ p.right ∈ (table.alternatives? p.left).getD [] := by
  rw [mem_iff]
  cases table.alternatives? p.left <;> simp

theorem not_mem_empty : p ∉ empty := by
  rw [mem_iff]
  rintro ⟨rights, h, -⟩
  simp [alternatives?, empty] at h

/-- What is there already is not inserted again. -/
theorem insert_of_mem (h : p ∈ table) : table.insert p = (false, table) :=
  if_pos (List.contains_iff_mem.mpr (mem_iff_getD.mp h))

/-- What is new comes behind the other alternatives of its left side. -/
theorem insert_of_not_mem (h : p ∉ table) : table.insert p =
    (true, ⟨table.rules.insert p.left ((table.alternatives? p.left).getD [] ++ [p.right])⟩) :=
  if_neg fun hold => h (mem_iff_getD.mpr (List.contains_iff_mem.mp hold))

/-- **Inserting adds one alternative to one left side**, unless it is there already. -/
theorem alternatives?_insert (table : Productions) (p : Production) (left : Form) :
    (table.insert p).2.alternatives? left =
      if p.left = left ∧ p ∉ table then some ((table.alternatives? left).getD [] ++ [p.right])
      else table.alternatives? left := by
  by_cases hmem : p ∈ table
  · simp [insert_of_mem hmem, hmem]
  · rw [insert_of_not_mem hmem, alternatives?, Std.TreeMap.getElem?_insert]
    by_cases hleft : p.left = left
    · subst hleft
      simp [hmem]
    · simp [hleft, alternatives?]

/-- **Inserting adds one production** and keeps all others. -/
theorem mem_insert : q ∈ (table.insert p).2 ↔ q = p ∨ q ∈ table := by
  rw [mem_iff_getD, mem_iff_getD, alternatives?_insert]
  split
  · rename_i hnew
    obtain ⟨left, right⟩ := p
    obtain ⟨left', right'⟩ := q
    obtain ⟨rfl, -⟩ := hnew
    simp [or_comm]
  · rename_i hold
    constructor
    · exact Or.inr
    · rintro (rfl | h)
      · exact mem_iff_getD.mp (not_not.mp fun hnot => hold ⟨rfl, hnot⟩)
      · exact h

theorem ofList_concat (l : List Production) (p : Production) :
    ofList (l ++ [p]) = ((ofList l).insert p).2 := by
  simp [ofList]

/-- **A table made of a list holds the productions of the list.** -/
@[simp] theorem mem_ofList : p ∈ ofList l ↔ p ∈ l := by
  induction l using List.reverseRecOn with
  | nil => simp [ofList, not_mem_empty]
  | append_singleton l q ih =>
    rw [ofList_concat, mem_insert, ih, List.mem_append, List.mem_singleton, or_comm]

/-! ## 2. Look-up -/

/-- What is looked up is in the table. -/
theorem mem_of_first? (h : table.first? left = some right) :
    (⟨left, right⟩ : Production) ∈ table := by
  obtain ⟨rights, halt, hhead⟩ := Option.bind_eq_some_iff.mp h
  exact mem_iff.mpr ⟨rights, halt, List.mem_of_head? hhead⟩

/-- A left side that is in the table is found. -/
theorem first?_isSome (h : p ∈ table) : ∃ right, table.first? p.left = some right := by
  obtain ⟨rights, halt, hmem⟩ := mem_iff.mp h
  obtain ⟨right, rest, rfl⟩ := List.exists_cons_of_ne_nil (List.ne_nil_of_mem hmem)
  exact ⟨right, by rw [first?, halt, Option.bind_some, List.head?_cons]⟩

/-- A left side that is not in the table is not found. -/
theorem first?_eq_none (h : ∀ right, (⟨left, right⟩ : Production) ∉ table) :
    table.first? left = none := by
  cases hfirst : table.first? left with
  | none => rfl
  | some right => exact absurd (mem_of_first? hfirst) (h right)

/-- **A left side with one alternative gives that alternative.** -/
theorem first?_eq_some (h : (⟨left, right⟩ : Production) ∈ table)
    (hunique : ∀ right', (⟨left, right'⟩ : Production) ∈ table → right' = right) :
    table.first? left = some right := by
  obtain ⟨right', hfirst⟩ := first?_isSome h
  rw [← hunique right' (mem_of_first? hfirst)]
  exact hfirst

/-! ## 3. Alternatives -/

/-- The alternatives of a left side are listed once each, and there is no left side without one. -/
def Distinct (table : Productions) : Prop :=
  ∀ left rights, table.alternatives? left = some rights → rights ≠ [] ∧ rights.Nodup

theorem distinct_empty : Distinct empty := by
  intro left rights h
  simp [alternatives?, empty] at h

/-- Inserting does not repeat an alternative. -/
theorem Distinct.insert (h : Distinct table) (p : Production) : Distinct (table.insert p).2 := by
  intro left rights halt
  rw [alternatives?_insert] at halt
  split at halt
  · rename_i hnew
    obtain ⟨rfl, hnot⟩ := hnew
    obtain rfl := Option.some.inj halt
    have hold : ((table.alternatives? p.left).getD []).Nodup := by
      cases hrights : table.alternatives? p.left with
      | none => exact List.nodup_nil
      | some rights => exact (h _ rights hrights).2
    refine ⟨by simp, List.nodup_append.mpr ⟨hold, List.nodup_singleton p.right, ?_⟩⟩
    rintro right hright _ hsame rfl
    exact hnot (mem_iff_getD.mpr (List.mem_singleton.mp hsame ▸ hright))
  · exact h left rights halt

/-- **The alternatives of a table made of a list are distinct.** -/
theorem distinct_ofList : Distinct (ofList l) := by
  induction l using List.reverseRecOn with
  | nil => exact distinct_empty
  | append_singleton l p ih =>
    rw [ofList_concat]
    exact ih.insert p

/-- No left side has more than one right side. -/
def Unambiguous (table : Productions) : Prop :=
  ∀ left rights, table.alternatives? left = some rights → rights.length ≤ 1

/-- **Where a left side determines its right side the table is unambiguous.** -/
theorem Distinct.unambiguous (h : Distinct table)
    (hunique : ∀ p ∈ table, ∀ q ∈ table, p.left = q.left → p.right = q.right) :
    Unambiguous table := by
  intro left rights halt
  obtain ⟨-, hnodup⟩ := h left rights halt
  match rights, hnodup with
  | [], _ => exact Nat.zero_le 1
  | [right], _ => exact Nat.le_refl 1
  | right :: right' :: rest, hnodup =>
    -- two alternatives would be two right sides of one left side
    have hmem : ∀ new ∈ right :: right' :: rest, (⟨left, new⟩ : Production) ∈ table :=
      fun new hnew => mem_iff.mpr ⟨_, halt, hnew⟩
    have heq : right = right' := hunique _ (hmem right (by simp)) _ (hmem right' (by simp)) rfl
    exact absurd hnodup (by simp [heq])

/-- A list in which a left side determines its right side makes an unambiguous table. -/
theorem unambiguous_ofList (hunique : ∀ p ∈ l, ∀ q ∈ l, p.left = q.left → p.right = q.right) :
    Unambiguous (ofList l) := by
  refine distinct_ofList.unambiguous fun p hp q hq => ?_
  rw [mem_ofList] at hp hq
  exact hunique p hp q hq

/-- An unambiguous table lists no left side as ambiguous. -/
theorem ambiguous_eq_nil_iff : table.ambiguous = [] ↔ Unambiguous table := by
  simp only [ambiguous, List.map_eq_nil_iff, List.filter_eq_nil_iff, decide_eq_true_eq, Prod.forall,
    Std.TreeMap.mem_toList_iff_getElem?_eq_some, Unambiguous, alternatives?, Nat.not_lt]

/-! ## 4. Listing -/

/-- The productions that are listed are those of the table. -/
theorem mem_toList : p ∈ table.toList ↔ p ∈ table := by
  obtain ⟨left, right⟩ := p
  simp only [toList, List.mem_flatMap, Prod.exists, Std.TreeMap.mem_toList_iff_getElem?_eq_some,
    List.mem_map, Production.mk.injEq, mem_iff, alternatives?]
  constructor
  · rintro ⟨left', rights, halt, right', hright, rfl, rfl⟩
    exact ⟨rights, halt, hright⟩
  · rintro ⟨rights, halt, hright⟩
    exact ⟨left, rights, halt, right, hright, rfl, rfl⟩

/-- Nothing is listed twice: a left side has one entry, and its alternatives are distinct. -/
theorem Distinct.nodup_toList (h : Distinct table) : table.toList.Nodup := by
  refine List.nodup_flatMap.mpr ⟨?_, ?_⟩
  · rintro ⟨left, rights⟩ hrule
    have halt := Std.TreeMap.mem_toList_iff_getElem?_eq_some.mp hrule
    exact (h left rights halt).2.map fun right right' heq => (Production.mk.inj heq).2
  · refine Std.TreeMap.distinct_keys_toList.imp ?_
    rintro ⟨left, rights⟩ ⟨left', rights'⟩ hne p hp hp'
    obtain ⟨right, -, rfl⟩ := List.mem_map.mp hp
    obtain ⟨right', -, heq⟩ := List.mem_map.mp hp'
    obtain rfl : left' = left := (Production.mk.inj heq).1
    exact hne Std.ReflOrd.compare_self

/-- **A table has as many productions as its list, repetitions not counted.** -/
theorem length_ofList_eq_card (l : List Production) : (ofList l).length = l.toFinset.card := by
  have hset : (ofList l).toList.toFinset = l.toFinset := by
    ext p
    simp [mem_toList]
  rw [length, ← hset, List.toFinset_card_of_nodup distinct_ofList.nodup_toList]

theorem length_ofList (h : l.Nodup) : (ofList l).length = l.length := by
  rw [length_ofList_eq_card, List.toFinset_card_of_nodup h]

end TapeGrammar.Productions
