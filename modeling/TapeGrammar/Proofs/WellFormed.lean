import TapeGrammar.Automaton.Defect

/-!
# What a well-formed automaton guarantees

`Automaton.WellFormed` says that five inspections find nothing.  This module turns the inspections
into the statements that the grammar constructions rely on: what may stand on the tape stays there,
markers stay in their places, and no name can be mistaken for another.
-/

namespace TapeGrammar.Automaton

variable {a : Automaton} {q x : String} {move : Move}

/-! ## 1. Entries, states and symbols -/

/-- The entries are the defined moves. -/
theorem mem_entries_iff {at_ : Situation} :
    (at_, move) ∈ a.entries ↔ a.move? at_.state at_.read = some move := by
  rw [entries, move?, Std.ExtTreeMap.mem_toList_iff_getElem?_eq_some]

theorem mem_entries_of_move? (h : a.move? q x = some move) : (⟨q, x⟩, move) ∈ a.entries :=
  mem_entries_iff.mpr h

theorem isState_iff : a.isState q = true ↔
    q = a.start ∨ q ∈ a.finals ∨ ∃ at_ move, (at_, move) ∈ a.entries ∧
      (q = at_.state ∨ q = move.next) := by
  simp only [isState, states, Std.ExtTreeSet.contains_ofList, List.contains_iff_mem,
    List.cons_append, List.mem_cons, List.mem_append, Std.ExtTreeSet.mem_toList,
    List.mem_flatMap, Prod.exists, List.not_mem_nil, or_false]

theorem isState_start : a.isState a.start = true := isState_iff.mpr (Or.inl rfl)

theorem isState_of_isFinal (h : a.isFinal q = true) : a.isState q = true :=
  isState_iff.mpr (Or.inr (Or.inl (Std.ExtTreeSet.mem_iff_contains.mpr h)))

/-- A state in which a move is defined is a state of the automaton. -/
theorem isState_of_move? (h : a.move? q x = some move) : a.isState q = true :=
  isState_iff.mpr (Or.inr (Or.inr ⟨_, _, mem_entries_of_move? h, Or.inl rfl⟩))

/-- The state that a move enters is a state of the automaton. -/
theorem isState_next (h : a.move? q x = some move) : a.isState move.next = true :=
  isState_iff.mpr (Or.inr (Or.inr ⟨_, _, mem_entries_of_move? h, Or.inr rfl⟩))

theorem mem_inputs_iff : x ∈ a.inputs ↔ x ∈ a.alphabet ∧ a.isMarker x = false := by
  simp [inputs]

theorem mem_cells_iff : x ∈ a.cells ↔ x ∈ a.tapeAlphabet ∧ a.isMarker x = false := by
  simp [cells]

theorem isSymbol_of_mem_inputs (h : x ∈ a.inputs) : a.isSymbol x = true := by
  simp [isSymbol, (mem_inputs_iff.mp h).1]

theorem isSymbol_of_mem_tape (h : x ∈ a.tapeAlphabet) : a.isSymbol x = true := by
  simp [isSymbol, h]

theorem isSymbol_of_mem_cells (h : x ∈ a.cells) : a.isSymbol x = true :=
  isSymbol_of_mem_tape (mem_cells_iff.mp h).1

/-- The automaton takes a word: it is not empty and has letters of the input alphabet only. -/
def Takes (a : Automaton) (word : Word) : Prop := word ≠ [] ∧ ∀ letter ∈ word, letter ∈ a.inputs

instance (a : Automaton) (word : Word) : Decidable (a.Takes word) :=
  inferInstanceAs (Decidable (_ ∧ _))

/-! ## 2. The inspections -/

namespace WellFormed

/-- Every letter is a tape symbol. -/
theorem input_mem_tape (ha : a.WellFormed) (hx : x ∈ a.inputs) : x ∈ a.tapeAlphabet := by
  have h := ((wellFormed_iff a).mp ha).1
  simp only [alphabetDefect?, inputsOffTape, ite_eq_left_iff, reduceCtorEq, imp_false,
    Classical.not_not, List.isEmpty_iff, List.filter_eq_nil_iff] at h
  simpa using h x hx

/-- A letter is a symbol that a cell may hold. -/
theorem input_mem_cells (ha : a.WellFormed) (hx : x ∈ a.inputs) : x ∈ a.cells :=
  mem_cells_iff.mpr ⟨ha.input_mem_tape hx, (mem_inputs_iff.mp hx).2⟩

/-- Every move reads and writes symbols that may stand on the tape. -/
theorem isKnown_of_move? (ha : a.WellFormed) (h : a.move? q x = some move) :
    a.isKnown x = true ∧ a.isKnown move.write = true := by
  have hsymbol := ((wellFormed_iff a).mp ha).2.2.1
  simp only [symbolDefect?, foreignEntries, ite_eq_left_iff, reduceCtorEq, imp_false,
    Classical.not_not, List.isEmpty_iff, List.filter_eq_nil_iff] at hsymbol
  simpa using hsymbol _ (mem_entries_of_move? h)

/-- No state bears the name of a symbol or of a helper. -/
theorem state_distinct (ha : a.WellFormed) (hq : a.isState q = true) :
    a.isSymbol q = false ∧ q ∉ reservedNames := by
  have h := ((wellFormed_iff a).mp ha).2.2.2.2
  simp only [nameDefect?, clashes, ite_eq_left_iff, reduceCtorEq, imp_false, Classical.not_not,
    List.isEmpty_iff, List.append_eq_nil_iff, List.filter_eq_nil_iff] at h
  have hmem : q ∈ a.states.toList := by
    rw [Std.ExtTreeSet.mem_toList, Std.ExtTreeSet.mem_iff_contains]
    exact hq
  simpa using h.1 q hmem

/-- Nothing bears the name of the padding label. -/
theorem epsilon_distinct (ha : a.WellFormed) :
    a.isSymbol Symbol.epsilon = false ∧ a.isState Symbol.epsilon = false := by
  have h := ((wellFormed_iff a).mp ha).2.2.2.2
  simp only [nameDefect?, clashes, ite_eq_left_iff, reduceCtorEq, imp_false, Classical.not_not,
    List.isEmpty_iff, List.append_eq_nil_iff] at h
  simpa using h.2

theorem state_ne_symbol (ha : a.WellFormed) (hq : a.isState q = true)
    (hx : a.isSymbol x = true) : q ≠ x := by
  rintro rfl
  rw [(ha.state_distinct hq).1] at hx
  cases hx

/-- No letter is the padding label. -/
theorem input_ne_epsilon (ha : a.WellFormed) (hx : x ∈ a.inputs) : x ≠ Symbol.epsilon := by
  rintro rfl
  have h := isSymbol_of_mem_inputs hx
  rw [ha.epsilon_distinct.1] at h
  cases h

/-! ## 3. Turing machines -/

section Unbounded

variable {blank : String}

/-- The blank is a tape symbol. -/
theorem blank_mem_tape (ha : a.WellFormed) (hb : a.boundary = .blank blank) :
    blank ∈ a.tapeAlphabet := by
  have h := ((wellFormed_iff a).mp ha).2.1
  simp only [boundaryDefect?, hb] at h
  split at h
  · cases h
  · rename_i hblank
    simpa using hblank

/-- A Turing machine reads and writes tape symbols. -/
theorem mem_tape_of_move? (ha : a.WellFormed) (hb : a.boundary = .blank blank)
    (h : a.move? q x = some move) : x ∈ a.tapeAlphabet ∧ move.write ∈ a.tapeAlphabet := by
  simpa [isKnown, isMarker, hb] using ha.isKnown_of_move? h

end Unbounded

/-! ## 4. Bounded automata -/

section Bounded

variable {left right : String}

/-- The markers differ, and both are in the alphabets. -/
theorem markers_distinct (ha : a.WellFormed) (hm : a.boundary = .markers left right) :
    left ≠ right ∧ a.isSymbol left = true ∧ a.isSymbol right = true := by
  have h := ((wellFormed_iff a).mp ha).2.1
  simp only [boundaryDefect?, hm] at h
  split at h
  · cases h
  · rename_i hne
    split at h
    · cases h
    · rename_i hmissing
      refine ⟨hne, ?_⟩
      simp only [Bool.not_eq_true', Bool.not_eq_false, List.isEmpty_iff,
        List.filter_eq_nil_iff] at hmissing
      have hleft := hmissing left (by simp)
      have hright := hmissing right (by simp)
      simp only [Bool.and_eq_true] at hleft hright
      simp [isSymbol, hleft.1, hright.1]

/-- There is a letter besides the markers. -/
theorem inputs_ne_nil (ha : a.WellFormed) (hm : a.boundary = .markers left right) :
    a.inputs ≠ [] := by
  have h := ((wellFormed_iff a).mp ha).2.1
  simp only [boundaryDefect?, hm] at h
  intro hinputs
  rw [hinputs] at h
  split at h
  · cases h
  · split at h <;> cases h

theorem isMarker_iff (hm : a.boundary = .markers left right) :
    a.isMarker x = true ↔ x = left ∨ x = right := by
  simp [isMarker, hm]

theorem ne_markers (hm : a.boundary = .markers left right) (hx : a.isMarker x = false) :
    x ≠ left ∧ x ≠ right := by
  constructor
  · rintro rfl
    rw [(isMarker_iff hm).mpr (Or.inl rfl)] at hx
    cases hx
  · rintro rfl
    rw [(isMarker_iff hm).mpr (Or.inr rfl)] at hx
    cases hx

/-- **Moves of a bounded automaton leave the markers in their places.**  The left marker is written
back and the head steps right, the right marker is written back and the head steps left, and every
other move reads and writes a symbol that a cell may hold. -/
theorem move_cases (ha : a.WellFormed) (hm : a.boundary = .markers left right)
    (h : a.move? q x = some move) :
    (x = left ∧ move.write = left ∧ move.direction = .right) ∨
      (x = right ∧ move.write = right ∧ move.direction = .left) ∨
      (x ∈ a.cells ∧ move.write ∈ a.cells) := by
  have hmarker := ((wellFormed_iff a).mp ha).2.2.2.1
  simp only [markerDefect?, hm, ite_eq_left_iff, reduceCtorEq, imp_false, Classical.not_not,
    List.isEmpty_iff, List.filter_eq_nil_iff] at hmarker
  have hp := hmarker _ (mem_entries_of_move? h)
  obtain ⟨hread, hwrite⟩ := ha.isKnown_of_move? h
  simp only [preservesMarkers, Bool.not_eq_true', Bool.not_eq_false] at hp
  split at hp
  · rename_i hx
    exact Or.inl ⟨hx, by simpa using hp⟩
  · rename_i hleft
    split at hp
    · rename_i hx
      exact Or.inr (Or.inl ⟨hx, by simpa using hp⟩)
    · rename_i hright
      refine Or.inr (Or.inr ⟨mem_cells_iff.mpr ?_, mem_cells_iff.mpr ?_⟩)
      · have hx : a.isMarker x = false := by
          simp only [isMarker, hm]
          simp_all
        exact ⟨by simpa [isKnown, hx] using hread, hx⟩
      · have hx : a.isMarker move.write = false := by
          simp only [isMarker, hm]
          simp_all
        exact ⟨by simpa [isKnown, hx] using hwrite, hx⟩

end Bounded

end WellFormed

end TapeGrammar.Automaton
