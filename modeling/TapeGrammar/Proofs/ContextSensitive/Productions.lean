import TapeGrammar.Proofs.Phases
import TapeGrammar.Proofs.Reading
import TapeGrammar.Proofs.WellFormed

/-!
# The productions of a context-sensitive grammar

The eight composites that carry a state and the four that do not are given by a PLACE and by two
flags: whether the cell is the first one, and whether it is the last one.  With them the productions
of the transition table have six shapes (`Moves`): the head leaves a marker for the cell beside it,
goes from that cell onto the marker, or goes from one cell to another.

In a well-formed automaton the labels of a composite can be told apart, so a composite that carries a
state determines its place and its labels (`carrying_inj`).
-/

namespace TapeGrammar.ContextSensitive

open Automaton (reservedNames)

variable {a : Automaton} {left right q x letter : String} {p : Production} {s : Symbol}
  {v : Vocabulary}

/-! ## 1. Composites -/

/-- The left marker, if the cell is the first one. -/
def leading (v : Vocabulary) (lead : Bool) : List String := if lead then [v.left] else []

/-- The right marker, if the cell is the last one. -/
def trailing (v : Vocabulary) (trail : Bool) : List String := if trail then [v.right] else []

/-- The composite of a cell without a state. -/
def plain (v : Vocabulary) (lead trail : Bool) (x letter : String) : Symbol :=
  composite (leading v lead ++ [x, letter] ++ trailing v trail)

/-- Where the head is, seen from the cell that carries the state. -/
inductive Place where
  /-- On the left marker; the cell is the first one. -/
  | onLeft (trail : Bool)
  /-- On the cell itself. -/
  | onCell (lead trail : Bool)
  /-- On the right marker; the cell is the last one. -/
  | onRight (lead : Bool)
  deriving DecidableEq

/-- The labels before the state. -/
def Place.before (v : Vocabulary) (x letter : String) : Place → List String
  | .onLeft _ => []
  | .onCell lead _ => leading v lead
  | .onRight lead => leading v lead ++ [x, letter]

/-- The labels behind the state. -/
def Place.behind (v : Vocabulary) (x letter : String) : Place → List String
  | .onLeft trail => [v.left, x, letter] ++ trailing v trail
  | .onCell _ trail => [x, letter] ++ trailing v trail
  | .onRight _ => [v.right]

/-- The composite of a cell that carries a state. -/
def carrying (v : Vocabulary) (place : Place) (q x letter : String) : Symbol :=
  composite (place.before v x letter ++ q :: place.behind v x letter)

/-- One of the helpers. -/
def IsHelper (s : Symbol) : Prop := s = placeState ∨ s = layLetters

theorem not_isHelper_terminal : ¬ IsHelper (.terminal x) := by
  rintro (h | h)
  · cases h
  · cases h

/-- A composite has more labels than one. -/
theorem plain_ne_single (lead trail : Bool) (name : String) :
    plain v lead trail x letter ≠ .nonTerminal [name] := by
  intro h
  have hlength := congrArg List.length (Symbol.nonTerminal.inj h)
  simp only [List.length_append, List.length_cons] at hlength
  omega

theorem carrying_ne_single (place : Place) (name : String) :
    carrying v place q x letter ≠ .nonTerminal [name] := by
  intro h
  have hlength := congrArg List.length (Symbol.nonTerminal.inj h)
  cases place <;>
    simp only [Place.before, Place.behind, List.length_append, List.length_cons] at hlength <;> omega

theorem not_isHelper_plain (lead trail : Bool) : ¬ IsHelper (plain v lead trail x letter) := by
  rintro (h | h)
  · exact plain_ne_single lead trail "A1" h
  · exact plain_ne_single lead trail "A2" h

theorem not_isHelper_carrying (place : Place) : ¬ IsHelper (carrying v place q x letter) := by
  rintro (h | h)
  · exact carrying_ne_single place "A1" h
  · exact carrying_ne_single place "A2" h

@[simp] theorem terminal_ne_plain (lead trail : Bool) :
    Symbol.terminal q ≠ plain v lead trail x letter := by
  intro h
  cases h

/-! ## 2. Telling composites apart -/

/-- A symbol that carries a state of the automaton. -/
def Carries (a : Automaton) (s : Symbol) : Prop := ∃ label ∈ s.labels, a.isState label = true

theorem not_carries_helper {s : Symbol} (ha : a.WellFormed) (hs : IsHelper s) :
    ¬ Carries a s := by
  have hname : ∀ name ∈ reservedNames, ¬ Carries a (.nonTerminal [name]) := by
    rintro name hname ⟨label, hlabel, hq⟩
    rw [List.mem_singleton.mp hlabel] at hq
    exact (ha.state_distinct hq).2 hname
  rcases hs with rfl | rfl
  · exact hname "A1" (by decide)
  · exact hname "A2" (by decide)

theorem carries_carrying {place : Place} {q x letter : String} (hq : a.isState q = true) :
    Carries a (carrying v place q x letter) :=
  ⟨q, List.mem_append_right _ List.mem_cons_self, hq⟩

theorem leading_inj {lead lead' : Bool} (h : leading v lead = leading v lead') : lead = lead' := by
  cases lead <;> cases lead' <;> simp_all [leading]

theorem trailing_inj {trail trail' : Bool} (h : trailing v trail = trailing v trail') :
    trail = trail' := by
  cases trail <;> cases trail' <;> simp_all [trailing]

/-- What a vocabulary has to satisfy for the labels of a composite to be told apart. -/
structure Clear (a : Automaton) (v : Vocabulary) : Prop where
  markers_ne : v.left ≠ v.right
  left_not_state : a.isState v.left = false
  right_not_state : a.isState v.right = false
  cell_not_state : ∀ x ∈ v.cells, a.isState x = false
  cell_ne_markers : ∀ x ∈ v.cells, x ≠ v.left ∧ x ≠ v.right
  input_mem_cells : ∀ x ∈ v.inputs, x ∈ v.cells

/-- **The vocabulary of a well-formed automaton is clear.** -/
theorem clear_ofAutomaton (ha : a.WellFormed) (hm : a.boundary = .markers left right) :
    Clear a (.ofAutomaton a left right) := by
  have hnot : ∀ x, a.isSymbol x = true → a.isState x = false := by
    intro x hx
    cases hq : a.isState x with
    | false => rfl
    | true => exact absurd rfl (ha.state_ne_symbol hq hx)
  obtain ⟨hne, hleft, hright⟩ := ha.markers_distinct hm
  refine ⟨hne, hnot _ hleft, hnot _ hright, ?_, ?_, ?_⟩
  · exact fun x hx => hnot x (Automaton.isSymbol_of_mem_cells hx)
  · exact fun x hx => Automaton.WellFormed.ne_markers hm (Automaton.mem_cells_iff.mp hx).2
  · exact fun x hx => ha.input_mem_cells hx

section Clear

variable (hv : Clear a v)

include hv

theorem Clear.leading_not_state (lead : Bool) : ∀ x ∈ leading v lead, ¬ a.isState x = true := by
  cases lead <;> simp [leading, hv.left_not_state]

theorem Clear.trailing_not_state (trail : Bool) :
    ∀ x ∈ trailing v trail, ¬ a.isState x = true := by
  cases trail <;> simp [trailing, hv.right_not_state]

theorem Clear.pair_not_state (hx : x ∈ v.cells) (hletter : letter ∈ v.cells) :
    ∀ y ∈ [x, letter], ¬ a.isState y = true := by
  simp [hv.cell_not_state x hx, hv.cell_not_state letter hletter]

/-- No label before the state is a state. -/
theorem Clear.before_not_state (hx : x ∈ v.cells) (hletter : letter ∈ v.cells) (place : Place) :
    ∀ y ∈ place.before v x letter, ¬ a.isState y = true := by
  cases place with
  | onLeft trail => simp [Place.before]
  | onCell lead trail => exact hv.leading_not_state lead
  | onRight lead =>
    intro y hy
    rcases List.mem_append.mp hy with hy | hy
    · exact hv.leading_not_state lead y hy
    · exact hv.pair_not_state hx hletter y hy

/-- No label behind the state is a state. -/
theorem Clear.behind_not_state (hx : x ∈ v.cells) (hletter : letter ∈ v.cells) (place : Place) :
    ∀ y ∈ place.behind v x letter, ¬ a.isState y = true := by
  cases place with
  | onLeft trail =>
    intro y hy
    rcases List.mem_append.mp hy with hy | hy
    · rcases List.mem_cons.mp hy with rfl | hy
      · simp [hv.left_not_state]
      · exact hv.pair_not_state hx hletter y hy
    · exact hv.trailing_not_state trail y hy
  | onCell lead trail =>
    intro y hy
    rcases List.mem_append.mp hy with hy | hy
    · exact hv.pair_not_state hx hletter y hy
    · exact hv.trailing_not_state trail y hy
  | onRight lead => simp [Place.behind, hv.right_not_state]

/-- A cell without a state carries none. -/
theorem Clear.not_carries_plain (hx : x ∈ v.cells) (hletter : letter ∈ v.cells)
    (lead trail : Bool) : ¬ Carries a (plain v lead trail x letter) := by
  rintro ⟨label, hlabel, hq⟩
  rcases List.mem_append.mp hlabel with hlabel | hlabel
  · rcases List.mem_append.mp hlabel with hlabel | hlabel
    · exact hv.leading_not_state lead label hlabel hq
    · exact hv.pair_not_state hx hletter label hlabel hq
  · exact hv.trailing_not_state trail label hlabel hq

/-- **A cell without a state determines its flags and its labels.** -/
theorem Clear.plain_inj {lead lead' trail trail' : Bool} {x' letter' : String}
    (hx : x ∈ v.cells) (hx' : x' ∈ v.cells)
    (h : plain v lead trail x letter = plain v lead' trail' x' letter') :
    lead = lead' ∧ trail = trail' ∧ x = x' ∧ letter = letter' := by
  have hlabels : leading v lead ++ [x, letter] ++ trailing v trail =
      leading v lead' ++ [x', letter'] ++ trailing v trail' := Symbol.nonTerminal.inj h
  have hlead : lead = lead' := by
    have hne := (hv.cell_ne_markers x hx).1
    have hne' := (hv.cell_ne_markers x' hx').1
    cases lead <;> cases lead' <;> simp_all [leading]
  subst hlead
  rw [List.append_assoc, List.append_assoc] at hlabels
  have hrest := List.append_cancel_left hlabels
  simp only [List.cons_append, List.nil_append, List.cons.injEq] at hrest
  exact ⟨rfl, trailing_inj hrest.2.2, hrest.1, hrest.2.1⟩

/-- **A composite that carries a state determines its place and its labels.** -/
theorem Clear.carrying_inj {place place' : Place} {q' x' letter' : String}
    (hq : a.isState q = true) (hx : x ∈ v.cells) (hx' : x' ∈ v.cells) (hl' : letter' ∈ v.cells)
    (h : carrying v place q x letter = carrying v place' q' x' letter') :
    place = place' ∧ q = q' ∧ x = x' ∧ letter = letter' := by
  obtain ⟨hbefore, hstate, hbehind⟩ := split_unique (p := fun y => a.isState y = true) hq
    (hv.before_not_state hx' hl' place') (hv.behind_not_state hx' hl' place')
    (Symbol.nonTerminal.inj h)
  have hne := (hv.cell_ne_markers x hx)
  have hne' := (hv.cell_ne_markers x' hx')
  cases place with
  | onLeft trail =>
    cases place' with
    | onLeft trail' =>
      simp only [Place.behind, List.cons_append, List.nil_append, List.cons.injEq] at hbehind
      obtain ⟨-, hx, hl, htrail⟩ := hbehind
      rw [trailing_inj htrail]
      exact ⟨rfl, hstate, hx, hl⟩
    | onCell lead' trail' =>
      simp only [Place.behind, List.cons_append, List.nil_append, List.cons.injEq] at hbehind
      exact absurd hbehind.1.symm hne'.1
    | onRight lead' => simp [Place.behind] at hbehind
  | onCell lead trail =>
    cases place' with
    | onLeft trail' =>
      simp only [Place.behind, List.cons_append, List.nil_append, List.cons.injEq] at hbehind
      exact absurd hbehind.1 hne.1
    | onCell lead' trail' =>
      simp only [Place.behind, List.cons_append, List.nil_append, List.cons.injEq] at hbehind
      obtain ⟨hx, hl, htrail⟩ := hbehind
      rw [trailing_inj htrail, leading_inj hbefore]
      exact ⟨rfl, hstate, hx, hl⟩
    | onRight lead' =>
      simp only [Place.behind, List.cons_append, List.nil_append, List.cons.injEq] at hbehind
      exact absurd hbehind.1 hne.2
  | onRight lead =>
    cases place' with
    | onLeft trail' => simp [Place.behind] at hbehind
    | onCell lead' trail' =>
      simp only [Place.behind, List.cons_append, List.nil_append, List.cons.injEq] at hbehind
      exact absurd hbehind.1.symm hne'.2
    | onRight lead' =>
      obtain ⟨hlead, hpair⟩ := List.append_inj' hbefore rfl
      simp only [List.cons.injEq, and_true] at hpair
      rw [leading_inj hlead]
      exact ⟨rfl, hstate, hpair.1, hpair.2⟩

end Clear

/-! ## 3. Tables -/

theorem mem_generation_iff {state : String} : p ∈ generation state v ↔ ∃ letter ∈ v.inputs,
    p = ⟨[placeState], [carrying v (.onLeft true) state letter letter]⟩ ∨
    p = ⟨[placeState], [carrying v (.onLeft false) state letter letter, layLetters]⟩ ∨
    p = ⟨[layLetters], [plain v false false letter letter, layLetters]⟩ ∨
    p = ⟨[layLetters], [plain v false true letter letter]⟩ := by
  simp [generation, plain, carrying, Place.before, Place.behind, leading, trailing]

/-- The shapes of the productions for a move of the state `q` that reads `x`, made at a cell that was
generated from `letter`. -/
inductive Moves (v : Vocabulary) (q x : String) (move : Move) (letter : String) :
    Production → Prop where
  /-- From the left marker onto the first cell. -/
  | leaveLeft (trail : Bool) (z : String) (hx : x = v.left) (hdir : move.direction = .right)
    (hz : z ∈ v.cells) :
    Moves v q x move letter ⟨[carrying v (.onLeft trail) q z letter],
      [carrying v (.onCell true trail) move.next z letter]⟩
  /-- From the right marker onto the last cell. -/
  | leaveRight (lead : Bool) (z : String) (hx : x = v.right) (hdir : move.direction = .left)
    (hz : z ∈ v.cells) :
    Moves v q x move letter ⟨[carrying v (.onRight lead) q z letter],
      [carrying v (.onCell lead true) move.next z letter]⟩
  /-- From the last cell onto the right marker. -/
  | ontoRight (lead : Bool) (hx : x ∈ v.cells) (hdir : move.direction = .right) :
    Moves v q x move letter ⟨[carrying v (.onCell lead true) q x letter],
      [carrying v (.onRight lead) move.next move.write letter]⟩
  /-- From the first cell onto the left marker. -/
  | ontoLeft (trail : Bool) (hx : x ∈ v.cells) (hdir : move.direction = .left) :
    Moves v q x move letter ⟨[carrying v (.onCell true trail) q x letter],
      [carrying v (.onLeft trail) move.next move.write letter]⟩
  /-- From a cell to the next one. -/
  | stepRight (lead trail : Bool) (z b : String) (hx : x ∈ v.cells)
    (hdir : move.direction = .right) (hz : z ∈ v.cells) (hb : b ∈ v.inputs) :
    Moves v q x move letter
      ⟨[carrying v (.onCell lead false) q x letter, plain v false trail z b],
        [plain v lead false move.write letter, carrying v (.onCell false trail) move.next z b]⟩
  /-- From a cell to the one before. -/
  | stepLeft (lead trail : Bool) (z b : String) (hx : x ∈ v.cells)
    (hdir : move.direction = .left) (hz : z ∈ v.cells) (hb : b ∈ v.inputs) :
    Moves v q x move letter
      ⟨[plain v lead false z b, carrying v (.onCell false trail) q x letter],
        [carrying v (.onCell lead false) move.next z b, plain v false trail move.write letter]⟩

/-! The lists of the productions, with flags in the place of the markers. -/

theorem mem_both (flag : Bool) : flag ∈ [true, false] := by
  cases flag <;> simp

theorem leaveLeftMarker_eq (v : Vocabulary) (q next letter : String) :
    leaveLeftMarker v q next letter = v.cells.flatMap fun z => [true, false].map fun trail =>
      (⟨[carrying v (.onLeft trail) q z letter],
        [carrying v (.onCell true trail) next z letter]⟩ : Production) := rfl

theorem leaveRightMarker_eq (v : Vocabulary) (q next letter : String) :
    leaveRightMarker v q next letter = v.cells.flatMap fun z => [true, false].map fun lead =>
      (⟨[carrying v (.onRight lead) q z letter],
        [carrying v (.onCell lead true) next z letter]⟩ : Production) := rfl

theorem stepRight_eq (v : Vocabulary) (q x next y letter : String) :
    stepRight v q x next y letter = ([true, false].map fun lead =>
      (⟨[carrying v (.onCell lead true) q x letter],
        [carrying v (.onRight lead) next y letter]⟩ : Production)) ++
    v.cells.flatMap fun z => v.inputs.flatMap fun b =>
      [(true, false), (true, true), (false, false), (false, true)].map fun (lead, trail) =>
        (⟨[carrying v (.onCell lead false) q x letter, plain v false trail z b],
          [plain v lead false y letter, carrying v (.onCell false trail) next z b]⟩ : Production) :=
  rfl

theorem stepLeft_eq (v : Vocabulary) (q x next y letter : String) :
    stepLeft v q x next y letter = ([true, false].map fun trail =>
      (⟨[carrying v (.onCell true trail) q x letter],
        [carrying v (.onLeft trail) next y letter]⟩ : Production)) ++
    v.cells.flatMap fun z => v.inputs.flatMap fun b =>
      [(true, false), (false, false), (false, true), (true, true)].map fun (lead, trail) =>
        (⟨[plain v lead false z b, carrying v (.onCell false trail) q x letter],
          [carrying v (.onCell lead false) next z b, plain v false trail y letter]⟩ : Production) :=
  rfl

theorem mem_leaveLeftMarker_iff {next : String} : p ∈ leaveLeftMarker v q next letter ↔
    ∃ trail, ∃ z ∈ v.cells, p = ⟨[carrying v (.onLeft trail) q z letter],
      [carrying v (.onCell true trail) next z letter]⟩ := by
  simp only [leaveLeftMarker_eq, List.mem_flatMap, List.mem_map]
  constructor
  · rintro ⟨z, hz, trail, -, rfl⟩
    exact ⟨trail, z, hz, rfl⟩
  · rintro ⟨trail, z, hz, rfl⟩
    exact ⟨z, hz, trail, mem_both trail, rfl⟩

theorem mem_leaveRightMarker_iff {next : String} : p ∈ leaveRightMarker v q next letter ↔
    ∃ lead, ∃ z ∈ v.cells, p = ⟨[carrying v (.onRight lead) q z letter],
      [carrying v (.onCell lead true) next z letter]⟩ := by
  simp only [leaveRightMarker_eq, List.mem_flatMap, List.mem_map]
  constructor
  · rintro ⟨z, hz, lead, -, rfl⟩
    exact ⟨lead, z, hz, rfl⟩
  · rintro ⟨lead, z, hz, rfl⟩
    exact ⟨z, hz, lead, mem_both lead, rfl⟩

theorem mem_stepRight_iff {next y : String} : p ∈ stepRight v q x next y letter ↔
    (∃ lead, p = ⟨[carrying v (.onCell lead true) q x letter],
      [carrying v (.onRight lead) next y letter]⟩) ∨
    ∃ lead trail, ∃ z ∈ v.cells, ∃ b ∈ v.inputs,
      p = ⟨[carrying v (.onCell lead false) q x letter, plain v false trail z b],
        [plain v lead false y letter, carrying v (.onCell false trail) next z b]⟩ := by
  simp only [stepRight_eq, List.mem_append, List.mem_flatMap, List.mem_map]
  refine or_congr ?_ ?_
  · constructor
    · rintro ⟨lead, -, rfl⟩
      exact ⟨lead, rfl⟩
    · rintro ⟨lead, rfl⟩
      exact ⟨lead, mem_both lead, rfl⟩
  · constructor
    · rintro ⟨z, hz, b, hb, ⟨lead, trail⟩, -, rfl⟩
      exact ⟨lead, trail, z, hz, b, hb, rfl⟩
    · rintro ⟨lead, trail, z, hz, b, hb, rfl⟩
      exact ⟨z, hz, b, hb, (lead, trail), by cases lead <;> cases trail <;> simp, rfl⟩

theorem mem_stepLeft_iff {next y : String} : p ∈ stepLeft v q x next y letter ↔
    (∃ trail, p = ⟨[carrying v (.onCell true trail) q x letter],
      [carrying v (.onLeft trail) next y letter]⟩) ∨
    ∃ lead trail, ∃ z ∈ v.cells, ∃ b ∈ v.inputs,
      p = ⟨[plain v lead false z b, carrying v (.onCell false trail) q x letter],
        [carrying v (.onCell lead false) next z b, plain v false trail y letter]⟩ := by
  simp only [stepLeft_eq, List.mem_append, List.mem_flatMap, List.mem_map]
  refine or_congr ?_ ?_
  · constructor
    · rintro ⟨trail, -, rfl⟩
      exact ⟨trail, rfl⟩
    · rintro ⟨trail, rfl⟩
      exact ⟨trail, mem_both trail, rfl⟩
  · constructor
    · rintro ⟨z, hz, b, hb, ⟨lead, trail⟩, -, rfl⟩
      exact ⟨lead, trail, z, hz, b, hb, rfl⟩
    · rintro ⟨lead, trail, z, hz, b, hb, rfl⟩
      exact ⟨z, hz, b, hb, (lead, trail), by cases lead <;> cases trail <;> simp, rfl⟩

/-- **The productions of an entry are its moves**, in one of the six shapes. -/
theorem mem_entryProductions_iff (ha : a.WellFormed) (hm : a.boundary = .markers left right)
    {move : Move} (hmove : a.move? q x = some move) :
    p ∈ entryProductions (.ofAutomaton a left right) ⟨q, x⟩ move letter ↔
      Moves (.ofAutomaton a left right) q x move letter p := by
  have hv := clear_ofAutomaton ha hm
  have hcases := ha.move_cases hm hmove
  constructor
  · intro hp
    unfold entryProductions at hp
    split at hp
    · rename_i hdir
      split at hp
      · rename_i hmarker
        obtain ⟨trail, z, hz, rfl⟩ := mem_leaveLeftMarker_iff.mp hp
        exact .leaveLeft trail z hmarker.1 hdir hz
      · rename_i hmarker
        have hx : x ∈ a.cells := by
          rcases hcases with ⟨hx, hwrite, -⟩ | ⟨-, -, hleft⟩ | ⟨hx, -⟩
          · exact absurd ⟨hx, hwrite⟩ hmarker
          · rw [hdir] at hleft
            cases hleft
          · exact hx
        rcases mem_stepRight_iff.mp hp with ⟨lead, rfl⟩ | ⟨lead, trail, z, hz, b, hb, rfl⟩
        · exact .ontoRight lead hx hdir
        · exact .stepRight lead trail z b hx hdir hz hb
    · rename_i hdir
      split at hp
      · rename_i hmarker
        obtain ⟨lead, z, hz, rfl⟩ := mem_leaveRightMarker_iff.mp hp
        exact .leaveRight lead z hmarker.1 hdir hz
      · rename_i hmarker
        have hx : x ∈ a.cells := by
          rcases hcases with ⟨-, -, hright⟩ | ⟨hx, hwrite, -⟩ | ⟨hx, -⟩
          · rw [hdir] at hright
            cases hright
          · exact absurd ⟨hx, hwrite⟩ hmarker
          · exact hx
        rcases mem_stepLeft_iff.mp hp with ⟨trail, rfl⟩ | ⟨lead, trail, z, hz, b, hb, rfl⟩
        · exact .ontoLeft trail hx hdir
        · exact .stepLeft lead trail z b hx hdir hz hb
  · intro hp
    have hne := hv.markers_ne
    unfold entryProductions
    cases hp with
    | leaveLeft trail z hx hdir hz =>
      have hwrite : move.write = left := by
        rcases hcases with ⟨-, hwrite, -⟩ | ⟨hright, -⟩ | ⟨hcell, -⟩
        · exact hwrite
        · exact absurd (hx.symm.trans hright) hne
        · exact absurd hx (hv.cell_ne_markers x hcell).1
      simp only [hdir]
      rw [if_pos ⟨hx, hwrite⟩]
      exact mem_leaveLeftMarker_iff.mpr ⟨trail, z, hz, rfl⟩
    | leaveRight lead z hx hdir hz =>
      have hwrite : move.write = right := by
        rcases hcases with ⟨hleft, -⟩ | ⟨-, hwrite, -⟩ | ⟨hcell, -⟩
        · exact absurd (hleft.symm.trans hx) hne
        · exact hwrite
        · exact absurd hx (hv.cell_ne_markers x hcell).2
      simp only [hdir]
      rw [if_pos ⟨hx, hwrite⟩]
      exact mem_leaveRightMarker_iff.mpr ⟨lead, z, hz, rfl⟩
    | ontoRight lead hx hdir =>
      simp only [hdir]
      rw [if_neg fun h => (hv.cell_ne_markers x hx).1 h.1]
      exact mem_stepRight_iff.mpr (Or.inl ⟨lead, rfl⟩)
    | ontoLeft trail hx hdir =>
      simp only [hdir]
      rw [if_neg fun h => (hv.cell_ne_markers x hx).2 h.1]
      exact mem_stepLeft_iff.mpr (Or.inl ⟨trail, rfl⟩)
    | stepRight lead trail z b hx hdir hz hb =>
      simp only [hdir]
      rw [if_neg fun h => (hv.cell_ne_markers x hx).1 h.1]
      exact mem_stepRight_iff.mpr (Or.inr ⟨lead, trail, z, hz, b, hb, rfl⟩)
    | stepLeft lead trail z b hx hdir hz hb =>
      simp only [hdir]
      rw [if_neg fun h => (hv.cell_ne_markers x hx).2 h.1]
      exact mem_stepLeft_iff.mpr (Or.inr ⟨lead, trail, z, hz, b, hb, rfl⟩)

/-- **A transition production is a move of the automaton.** -/
theorem mem_transition_iff (ha : a.WellFormed) (hm : a.boundary = .markers left right) :
    p ∈ transition a.entries (.ofAutomaton a left right) ↔
      ∃ q x move, ∃ letter ∈ a.inputs, a.move? q x = some move ∧
        Moves (.ofAutomaton a left right) q x move letter p := by
  simp only [transition, List.mem_flatMap, Prod.exists]
  constructor
  · rintro ⟨⟨q, x⟩, move, hentry, letter, hletter, hp⟩
    have hmove := Automaton.mem_entries_iff.mp hentry
    exact ⟨q, x, move, letter, hletter, hmove, (mem_entryProductions_iff ha hm hmove).mp hp⟩
  · rintro ⟨q, x, move, letter, hletter, hmove, hp⟩
    exact ⟨⟨q, x⟩, move, Automaton.mem_entries_of_move? hmove, letter, hletter,
      (mem_entryProductions_iff ha hm hmove).mpr hp⟩

/-- The places of a state, in the order in which they are recovered. -/
def places : List Place :=
  [.onLeft true, .onCell true true, .onRight true, .onLeft false, .onCell true false,
    .onCell false false, .onCell false true, .onRight false]

theorem mem_places (place : Place) : place ∈ places := by
  rcases place with (trail | trail) | ⟨lead | lead, trail | trail⟩ | (lead | lead) <;> decide

theorem recoverState_eq (v : Vocabulary) (q x letter : String) :
    recoverState v q x letter = places.map fun place =>
      (⟨[carrying v place q x letter], [.terminal letter]⟩ : Production) := rfl

/-- The production that recovers a cell behind a letter, or the one before it. -/
def recovering (v : Vocabulary) (x letter b : String) : (isBehind : Bool) → Bool → Production
  | true, trail => ⟨[.terminal letter, plain v false trail x b], [.terminal letter, .terminal b]⟩
  | false, lead => ⟨[plain v lead false x letter, .terminal b], [.terminal letter, .terminal b]⟩

theorem recoverNeighbour_eq (v : Vocabulary) (x letter b : String) :
    recoverNeighbour v x letter b =
      [(true, false), (true, true), (false, false), (false, true)].map fun (isBehind, flag) =>
        recovering v x letter b isBehind flag := rfl

theorem mem_recoverState_iff : p ∈ recoverState v q x letter ↔
    ∃ place, p = ⟨[carrying v place q x letter], [.terminal letter]⟩ := by
  rw [recoverState_eq, List.mem_map]
  constructor
  · rintro ⟨place, -, rfl⟩
    exact ⟨place, rfl⟩
  · rintro ⟨place, rfl⟩
    exact ⟨place, mem_places place, rfl⟩

theorem mem_recoverNeighbour_iff {b : String} : p ∈ recoverNeighbour v x letter b ↔
    (∃ trail, p = ⟨[.terminal letter, plain v false trail x b],
      [.terminal letter, .terminal b]⟩) ∨
    ∃ lead, p = ⟨[plain v lead false x letter, .terminal b],
      [.terminal letter, .terminal b]⟩ := by
  rw [recoverNeighbour_eq, List.mem_map]
  constructor
  · rintro ⟨⟨_ | _, flag⟩, -, rfl⟩
    · exact Or.inr ⟨flag, rfl⟩
    · exact Or.inl ⟨flag, rfl⟩
  · rintro (⟨trail, rfl⟩ | ⟨lead, rfl⟩)
    · exact ⟨(true, trail), by cases trail <;> simp, rfl⟩
    · exact ⟨(false, lead), by cases lead <;> simp, rfl⟩

/-- A recovery production turns a composite that carries a final state into its letter, or a cell
beside a letter. -/
theorem mem_recovery_iff {finals : List String} : p ∈ recovery finals v ↔
    ∃ letter ∈ v.inputs, ∃ x ∈ v.cells,
      (∃ q ∈ finals, ∃ place, p = ⟨[carrying v place q x letter], [.terminal letter]⟩) ∨
      ∃ b ∈ v.inputs,
        (∃ trail, p = ⟨[.terminal letter, plain v false trail x b],
          [.terminal letter, .terminal b]⟩) ∨
        ∃ lead, p = ⟨[plain v lead false x letter, .terminal b],
          [.terminal letter, .terminal b]⟩ := by
  simp only [recovery, List.mem_flatMap, List.mem_append, mem_recoverState_iff,
    mem_recoverNeighbour_iff]

section Grammar

/-- The grammar of a bounded automaton. -/
theorem ofAutomaton_eq (hm : a.boundary = .markers left right) : Grammar.ofAutomaton a = {
    automaton := a
    generation := .ofList (generation a.start (.ofAutomaton a left right))
    transition := .ofList (transition a.entries (.ofAutomaton a left right))
    recovery := .ofList (recovery a.finals.toList (.ofAutomaton a left right)) } := by
  unfold Grammar.ofAutomaton
  rw [hm]

theorem kind_eq (hm : a.boundary = .markers left right) :
    (Grammar.ofAutomaton a).kind = .contextSensitive := by
  rw [ofAutomaton_eq hm]
  simp [Grammar.kind, Automaton.kind, hm, GrammarKind.ofMachine]

theorem start_eq (hm : a.boundary = .markers left right) :
    (Grammar.ofAutomaton a).start = placeState := by
  rw [Grammar.start, kind_eq hm]
  rfl

theorem automaton_eq (hm : a.boundary = .markers left right) :
    (Grammar.ofAutomaton a).automaton = a := by
  rw [ofAutomaton_eq hm]

theorem plan_eq (hm : a.boundary = .markers left right) (word : Word) (padding : Padding) :
    (Grammar.ofAutomaton a).plan word padding = plan a.start left right word := by
  simp only [Grammar.plan, automaton_eq hm, hm]

theorem mem_generation (hm : a.boundary = .markers left right) :
    p ∈ (Grammar.ofAutomaton a).generation ↔
      p ∈ generation a.start (.ofAutomaton a left right) := by
  rw [ofAutomaton_eq hm, Productions.mem_ofList]

theorem mem_transition (hm : a.boundary = .markers left right) :
    p ∈ (Grammar.ofAutomaton a).transition ↔
      p ∈ transition a.entries (.ofAutomaton a left right) := by
  rw [ofAutomaton_eq hm, Productions.mem_ofList]

theorem mem_recovery (hm : a.boundary = .markers left right) :
    p ∈ (Grammar.ofAutomaton a).recovery ↔
      p ∈ recovery a.finals.toList (.ofAutomaton a left right) := by
  rw [ofAutomaton_eq hm, Productions.mem_ofList]

end Grammar

/-! ## 4. What a form spells -/

/-- The labels that are neither a state nor a marker: the cell symbol and the letter. -/
def names (a : Automaton) (v : Vocabulary) (labels : List String) : List String :=
  labels.filter fun label => !(a.isState label || label == v.left || label == v.right)

/-- A composite stands for the letter that it was generated from. -/
def reading (a : Automaton) (v : Vocabulary) : Reading where
  letter?
    | .terminal letter => some letter
    | .nonTerminal labels =>
      match names a v labels with
      | [_, letter] => some letter
      | _ => none
  terminal _ := rfl

section Spelling

variable (hv : Clear a v)

include hv

theorem Clear.names_pair (hx : x ∈ v.cells) (hletter : letter ∈ v.cells) :
    names a v [x, letter] = [x, letter] := by
  have hne := hv.cell_ne_markers x hx
  have hne' := hv.cell_ne_markers letter hletter
  simp [names, hv.cell_not_state x hx, hv.cell_not_state letter hletter, hne, hne']

omit hv in
theorem names_leading (lead : Bool) : names a v (leading v lead) = [] := by
  cases lead <;> simp [names, leading]

omit hv in
theorem names_trailing (trail : Bool) : names a v (trailing v trail) = [] := by
  cases trail <;> simp [names, trailing]

omit hv in
theorem names_append (l l' : List String) : names a v (l ++ l') = names a v l ++ names a v l' :=
  List.filter_append ..

omit hv in
theorem names_cons_state (hq : a.isState q = true) (l : List String) :
    names a v (q :: l) = names a v l := by
  simp [names, hq]

theorem Clear.names_plain (hx : x ∈ v.cells) (hletter : letter ∈ v.cells) (lead trail : Bool) :
    names a v (leading v lead ++ [x, letter] ++ trailing v trail) = [x, letter] := by
  rw [names_append, names_append, names_leading, names_trailing, hv.names_pair hx hletter]
  rfl

theorem Clear.names_carrying (hq : a.isState q = true) (hx : x ∈ v.cells)
    (hletter : letter ∈ v.cells) (place : Place) :
    names a v (place.before v x letter ++ q :: place.behind v x letter) = [x, letter] := by
  have hpair := hv.names_pair hx hletter
  rw [names_append, names_cons_state hq]
  cases place with
  | onLeft trail =>
    have hleft : names a v [v.left] = [] := by simp [names]
    rw [Place.before, Place.behind, ← List.singleton_append, names_append, names_append, hpair,
      hleft, names_trailing]
    rfl
  | onCell lead trail =>
    rw [Place.before, Place.behind, names_append, hpair, names_leading, names_trailing]
    rfl
  | onRight lead =>
    have hright : names a v [v.right] = [] := by simp [names]
    rw [Place.before, Place.behind, names_append, hpair, names_leading, hright]
    rfl

theorem Clear.letter?_plain (hx : x ∈ v.cells) (hletter : letter ∈ v.cells) (lead trail : Bool) :
    (reading a v).letter? (plain v lead trail x letter) = some letter := by
  simp only [reading, plain, composite, hv.names_plain hx hletter]

theorem Clear.letter?_carrying (hq : a.isState q = true) (hx : x ∈ v.cells)
    (hletter : letter ∈ v.cells) (place : Place) :
    (reading a v).letter? (carrying v place q x letter) = some letter := by
  simp only [reading, carrying, composite, hv.names_carrying hq hx hletter]

end Spelling

/-- A reading by which the composite of a cell stands for the letter that the cell was generated from,
with or without a state. -/
structure Shows (r : Reading) (a : Automaton) (v : Vocabulary) : Prop where
  letter?_plain : ∀ {x letter : String}, x ∈ v.cells → letter ∈ v.cells → ∀ lead trail,
    r.letter? (plain v lead trail x letter) = some letter
  letter?_carrying : ∀ {q x letter : String}, a.isState q = true → x ∈ v.cells →
    letter ∈ v.cells → ∀ place, r.letter? (carrying v place q x letter) = some letter

theorem Clear.shows_reading (hv : Clear a v) : Shows (reading a v) a v :=
  ⟨hv.letter?_plain, hv.letter?_carrying⟩

section Productions

variable {r : Reading} (ha : a.WellFormed) (hm : a.boundary = .markers left right)
  (hr : Shows r a (.ofAutomaton a left right))

include ha hm hr

/-- **A transition production keeps the letters of its cells.** -/
theorem Shows.spelled_transition (hp : p ∈ transition a.entries (.ofAutomaton a left right)) :
    r.spelled p.left = r.spelled p.right := by
  have hv := clear_ofAutomaton ha hm
  obtain ⟨q, x, move, letter, hletter, hmove, hshape⟩ := (mem_transition_iff ha hm).mp hp
  have hq := Automaton.isState_of_move? hmove
  have hnext := Automaton.isState_next hmove
  have hl := hv.input_mem_cells letter hletter
  have hwrite : x ∈ a.cells → move.write ∈ a.cells := by
    intro hx
    rcases ha.move_cases hm hmove with ⟨h, -⟩ | ⟨h, -⟩ | ⟨-, h⟩
    · exact absurd h (hv.cell_ne_markers x hx).1
    · exact absurd h (hv.cell_ne_markers x hx).2
    · exact h
  cases hshape with
  | leaveLeft trail z hx hdir hz =>
    simp only [Reading.spelled_cons, hr.letter?_carrying hq hz hl, hr.letter?_carrying hnext hz hl]
  | leaveRight lead z hx hdir hz =>
    simp only [Reading.spelled_cons, hr.letter?_carrying hq hz hl, hr.letter?_carrying hnext hz hl]
  | ontoRight lead hx hdir =>
    simp only [Reading.spelled_cons, hr.letter?_carrying hq hx hl,
      hr.letter?_carrying hnext (hwrite hx) hl]
  | ontoLeft trail hx hdir =>
    simp only [Reading.spelled_cons, hr.letter?_carrying hq hx hl,
      hr.letter?_carrying hnext (hwrite hx) hl]
  | stepRight lead trail z b hx hdir hz hb =>
    have hb := hv.input_mem_cells b hb
    simp only [Reading.spelled_cons, hr.letter?_carrying hq hx hl, hr.letter?_plain hz hb,
      hr.letter?_plain (hwrite hx) hl, hr.letter?_carrying hnext hz hb]
  | stepLeft lead trail z b hx hdir hz hb =>
    have hb := hv.input_mem_cells b hb
    simp only [Reading.spelled_cons, hr.letter?_carrying hq hx hl, hr.letter?_plain hz hb,
      hr.letter?_plain (hwrite hx) hl, hr.letter?_carrying hnext hz hb]

/-- **A recovery production shows the letter of the cell that it replaces.** -/
theorem Shows.spelled_recovery (hp : p ∈ recovery a.finals.toList (.ofAutomaton a left right)) :
    r.spelled p.left = r.spelled p.right := by
  have hv := clear_ofAutomaton ha hm
  obtain ⟨letter, hletter, x, hx, hshape⟩ := mem_recovery_iff.mp hp
  have hl := hv.input_mem_cells letter hletter
  rcases hshape with ⟨q, hfinal, place, rfl⟩ | ⟨b, hb, ⟨trail, rfl⟩ | ⟨lead, rfl⟩⟩
  · have hq : a.isState q = true := by
      refine Automaton.isState_of_isFinal (Std.ExtTreeSet.mem_iff_contains.mp ?_)
      exact Std.ExtTreeSet.mem_toList.mp hfinal
    simp only [Reading.spelled_cons, hr.letter?_carrying hq hx hl, Reading.terminal]
  · have hb := hv.input_mem_cells b hb
    simp only [Reading.spelled_cons, hr.letter?_plain hx hb, Reading.terminal]
  · simp only [Reading.spelled_cons, hr.letter?_plain hx hl, Reading.terminal]

omit hr in
theorem spelled_transition (hp : p ∈ transition a.entries (.ofAutomaton a left right)) :
    (reading a (.ofAutomaton a left right)).spelled p.left =
      (reading a (.ofAutomaton a left right)).spelled p.right :=
  (clear_ofAutomaton ha hm).shows_reading.spelled_transition ha hm hp

omit hr in
theorem spelled_recovery (hp : p ∈ recovery a.finals.toList (.ofAutomaton a left right)) :
    (reading a (.ofAutomaton a left right)).spelled p.left =
      (reading a (.ofAutomaton a left right)).spelled p.right :=
  (clear_ofAutomaton ha hm).shows_reading.spelled_recovery ha hm hp

end Productions

end TapeGrammar.ContextSensitive
