import TapeGrammar.Proofs.ContextSensitive.Language
import TapeGrammar.Proofs.Unrestricted.Language

/-!
# Tables without alternatives

Generation has to choose between alternatives, because it makes the configuration for any word.  The
two other tables of a well-formed automaton have none: a left side determines its right side
(`tables_unambiguous`).

The symbol of a left side that carries a state says which entry of the transition function the
production is made from, and the automaton is deterministic.  In an unrestricted grammar that symbol
is the token.  In a context-sensitive one it is a composite, and it can be read only because the
labels of a well-formed automaton can be told apart: a state, a marker and a cell symbol share no
name.
-/

namespace TapeGrammar

variable {a : Automaton} {p p' : Production}

/-! ## 1. Turing machines -/

namespace Unrestricted

/-- **A transition production is determined by its left side.**  Its width says in which direction
the head goes, and token and cell say which entry it is made from. -/
theorem transition_right_unique (hp : p ∈ transition a) (hp' : p' ∈ transition a)
    (hleft : p.left = p'.left) : p.right = p'.right := by
  obtain ⟨q, x, move, origin, hmove, -, hshape⟩ := mem_transition_iff.mp hp
  obtain ⟨q', x', move', origin', hmove', -, hshape'⟩ := mem_transition_iff.mp hp'
  rcases hshape with ⟨-, rfl⟩ | ⟨-, before, -, symbol, -, rfl⟩ <;>
    rcases hshape' with ⟨-, rfl⟩ | ⟨-, before', -, symbol', -, rfl⟩
  · -- both to the right
    simp only [stepRight, List.cons.injEq, token_inj, cell_inj, and_true] at hleft
    obtain ⟨rfl, rfl, rfl⟩ := hleft
    obtain rfl : move = move' := Option.some.inj (hmove.symm.trans hmove')
    rfl
  · exact absurd (congrArg List.length hleft) (by simp [stepRight, stepLeft])
  · exact absurd (congrArg List.length hleft) (by simp [stepRight, stepLeft])
  · -- both to the left
    simp only [stepLeft, List.cons.injEq, token_inj, cell_inj, and_true] at hleft
    obtain ⟨⟨rfl, rfl⟩, rfl, rfl, rfl⟩ := hleft
    obtain rfl : move = move' := Option.some.inj (hmove.symm.trans hmove')
    rfl

/-- **A recovery production is determined by its left side**: by the token, by the origin of the cell
that the token passes, and by the side on which the cell is. -/
theorem recovery_right_unique (hp : p ∈ recovery a) (hp' : p' ∈ recovery a)
    (hleft : p.left = p'.left) : p.right = p'.right := by
  obtain ⟨q, -, hshape⟩ := mem_recovery_iff.mp hp
  obtain ⟨q', -, hshape'⟩ := mem_recovery_iff.mp hp'
  rcases hshape with rfl | ⟨origin, -, symbol, -, rfl | rfl⟩ <;>
    rcases hshape' with rfl | ⟨origin', -, symbol', -, rfl | rfl⟩ <;>
    simp only [List.cons.injEq, token_inj, cell_inj, token_ne_cell, cell_ne_token, and_true,
      reduceCtorEq, and_false] at hleft
  · rfl
  · obtain ⟨⟨rfl, -⟩, rfl⟩ := hleft
    rfl
  · obtain ⟨rfl, rfl, -⟩ := hleft
    rfl

end Unrestricted

/-! ## 2. Bounded automata -/

namespace ContextSensitive

variable {left right q x letter : String} {v : Vocabulary} {move : Move}

/-- What the head reads, given the symbol of the cell. -/
def Place.read (v : Vocabulary) (z : String) : Place → String
  | .onLeft _ => v.left
  | .onCell _ _ => z
  | .onRight _ => v.right

/-- **The left side of a move shows the entry that it is made from**: the state, the symbol under the
head and the letter are read off the only composite that carries a state. -/
theorem Moves.exists_carrying (hv : Clear a v) (h : Moves v q x move letter p) :
    ∃ before place z behind, p.left = before ++ carrying v place q z letter :: behind ∧
      z ∈ v.cells ∧ x = place.read v z ∧ (∀ s ∈ before, ¬ Carries a s) ∧
        ∀ s ∈ behind, ¬ Carries a s := by
  cases h with
  | leaveLeft trail z hx hdir hz => exact ⟨[], .onLeft trail, z, [], rfl, hz, hx, by simp, by simp⟩
  | leaveRight lead z hx hdir hz => exact ⟨[], .onRight lead, z, [], rfl, hz, hx, by simp, by simp⟩
  | ontoRight lead hx hdir => exact ⟨[], .onCell lead true, x, [], rfl, hx, rfl, by simp, by simp⟩
  | ontoLeft trail hx hdir => exact ⟨[], .onCell true trail, x, [], rfl, hx, rfl, by simp, by simp⟩
  | stepRight lead trail z b hx hdir hz hb =>
    refine ⟨[], .onCell lead false, x, [plain v false trail z b], rfl, hx, rfl, by simp, ?_⟩
    intro s hs
    rw [List.mem_singleton.mp hs]
    exact hv.not_carries_plain hz (hv.input_mem_cells b hb) false trail
  | stepLeft lead trail z b hx hdir hz hb =>
    refine ⟨[plain v lead false z b], .onCell false trail, x, [], rfl, hx, rfl, ?_, by simp⟩
    intro s hs
    rw [List.mem_singleton.mp hs]
    exact hv.not_carries_plain hz (hv.input_mem_cells b hb) lead false

/-- **A left side is made from one entry and for one letter**: the composites that carry a state are the
same, and with them the entries. -/
theorem Moves.entry_unique (hv : Clear a v) (hq : a.isState q = true) {q' x' letter' : String}
    {move' : Move} (hl' : letter' ∈ v.cells) (h : Moves v q x move letter p)
    (h' : Moves v q' x' move' letter' p') (hleft : p.left = p'.left) :
    q = q' ∧ x = x' ∧ letter = letter' := by
  obtain ⟨before, place, z, behind, hform, hz, hx, -, -⟩ := h.exists_carrying hv
  obtain ⟨before', place', z', behind', hform', hz', hx', hnot, hnot'⟩ := h'.exists_carrying hv
  rw [hform, hform'] at hleft
  obtain ⟨-, hcarrying, -⟩ := split_unique (carries_carrying hq) hnot hnot' hleft
  obtain ⟨rfl, rfl, rfl, rfl⟩ := hv.carrying_inj hq hz hz' hl' hcarrying
  exact ⟨rfl, hx.trans hx'.symm, rfl⟩

/-- Two productions for one entry and one letter have the same right side if they have the same left
side. -/
theorem Moves.right_unique (hv : Clear a v) (hq : a.isState q = true) (hl : letter ∈ v.cells)
    (h : Moves v q x move letter p) (h' : Moves v q x move letter p') (hleft : p.left = p'.left) :
    p.right = p'.right := by
  cases h with
  | leaveLeft trail z hx hdir hz =>
    cases h' with
    | leaveLeft trail' z' hx' hdir' hz' =>
      obtain ⟨hplace, -, rfl, -⟩ := hv.carrying_inj hq hz hz' hl (List.singleton_inj.mp hleft)
      cases hplace
      rfl
    | ontoRight _ hx' _ | stepRight _ _ _ _ hx' _ _ _ =>
      exact absurd hx (hv.cell_ne_markers x hx').1
    | leaveRight _ _ _ hdir' _ | ontoLeft _ _ hdir' | stepLeft _ _ _ _ _ hdir' _ _ =>
      simp [hdir] at hdir'
  | leaveRight lead z hx hdir hz =>
    cases h' with
    | leaveRight lead' z' hx' hdir' hz' =>
      obtain ⟨hplace, -, rfl, -⟩ := hv.carrying_inj hq hz hz' hl (List.singleton_inj.mp hleft)
      cases hplace
      rfl
    | ontoLeft _ hx' _ | stepLeft _ _ _ _ hx' _ _ _ =>
      exact absurd hx (hv.cell_ne_markers x hx').2
    | leaveLeft _ _ _ hdir' _ | ontoRight _ _ hdir' | stepRight _ _ _ _ _ hdir' _ _ =>
      simp [hdir] at hdir'
  | ontoRight lead hx hdir =>
    cases h' with
    | ontoRight lead' hx' hdir' =>
      obtain ⟨hplace, -⟩ := hv.carrying_inj hq hx hx' hl (List.singleton_inj.mp hleft)
      cases hplace
      rfl
    | leaveLeft _ _ hx' _ _ => exact absurd hx' (hv.cell_ne_markers x hx).1
    | stepRight _ _ _ _ _ _ _ _ => simp at hleft
    | leaveRight _ _ _ hdir' _ | ontoLeft _ _ hdir' | stepLeft _ _ _ _ _ hdir' _ _ =>
      simp [hdir] at hdir'
  | ontoLeft trail hx hdir =>
    cases h' with
    | ontoLeft trail' hx' hdir' =>
      obtain ⟨hplace, -⟩ := hv.carrying_inj hq hx hx' hl (List.singleton_inj.mp hleft)
      cases hplace
      rfl
    | leaveRight _ _ hx' _ _ => exact absurd hx' (hv.cell_ne_markers x hx).2
    | stepLeft _ _ _ _ _ _ _ _ => simp at hleft
    | leaveLeft _ _ _ hdir' _ | ontoRight _ _ hdir' | stepRight _ _ _ _ _ hdir' _ _ =>
      simp [hdir] at hdir'
  | stepRight lead trail z b hx hdir hz hb =>
    cases h' with
    | stepRight lead' trail' z' b' hx' hdir' hz' hb' =>
      obtain ⟨hcarrying, hplain⟩ := List.cons.inj hleft
      obtain ⟨hplace, -⟩ := hv.carrying_inj hq hx hx' hl hcarrying
      obtain ⟨-, rfl, rfl, rfl⟩ := hv.plain_inj hz hz' (List.singleton_inj.mp hplain)
      cases hplace
      rfl
    | leaveLeft _ _ hx' _ _ => exact absurd hx' (hv.cell_ne_markers x hx).1
    | ontoRight _ _ _ => simp at hleft
    | leaveRight _ _ _ hdir' _ | ontoLeft _ _ hdir' | stepLeft _ _ _ _ _ hdir' _ _ =>
      simp [hdir] at hdir'
  | stepLeft lead trail z b hx hdir hz hb =>
    cases h' with
    | stepLeft lead' trail' z' b' hx' hdir' hz' hb' =>
      obtain ⟨hplain, hcarrying⟩ := List.cons.inj hleft
      obtain ⟨hplace, -⟩ := hv.carrying_inj hq hx hx' hl (List.singleton_inj.mp hcarrying)
      obtain ⟨rfl, -, rfl, rfl⟩ := hv.plain_inj hz hz' hplain
      cases hplace
      rfl
    | leaveRight _ _ hx' _ _ => exact absurd hx' (hv.cell_ne_markers x hx).2
    | ontoLeft _ _ _ => simp at hleft
    | leaveLeft _ _ _ hdir' _ | ontoRight _ _ hdir' | stepRight _ _ _ _ _ hdir' _ _ =>
      simp [hdir] at hdir'

/-- **A transition production is determined by its left side.** -/
theorem transition_right_unique (ha : a.WellFormed) (hm : a.boundary = .markers left right)
    (hp : p ∈ transition a.entries (.ofAutomaton a left right))
    (hp' : p' ∈ transition a.entries (.ofAutomaton a left right)) (hleft : p.left = p'.left) :
    p.right = p'.right := by
  have hv := clear_ofAutomaton ha hm
  obtain ⟨q, x, move, letter, hletter, hmove, hshape⟩ := (mem_transition_iff ha hm).mp hp
  obtain ⟨q', x', move', letter', hletter', hmove', hshape'⟩ := (mem_transition_iff ha hm).mp hp'
  have hq := Automaton.isState_of_move? hmove
  have hl := hv.input_mem_cells letter hletter
  obtain ⟨rfl, rfl, rfl⟩ :=
    hshape.entry_unique hv hq (hv.input_mem_cells letter' hletter') hshape' hleft
  obtain rfl : move = move' := Option.some.inj (hmove.symm.trans hmove')
  exact hshape.right_unique hv hq hl hshape' hleft

/-- **A recovery production is determined by its left side**, because its right side is what the left
side spells. -/
theorem recovery_right_unique (ha : a.WellFormed) (hm : a.boundary = .markers left right)
    (hp : p ∈ recovery a.finals.toList (.ofAutomaton a left right))
    (hp' : p' ∈ recovery a.finals.toList (.ofAutomaton a left right)) (hleft : p.left = p'.left) :
    p.right = p'.right := by
  rw [right_of_mem_recovery ha hm hp, right_of_mem_recovery ha hm hp', hleft]

end ContextSensitive

/-! ## 3. The tables of a grammar -/

/-- **The transition table and the recovery table of a well-formed automaton are unambiguous.**  No
left side of either table has more than one right side, so neither of them lists a left side as
ambiguous. -/
theorem tables_unambiguous (ha : a.WellFormed) :
    ((Grammar.ofAutomaton a).transition.Unambiguous ∧
      (Grammar.ofAutomaton a).recovery.Unambiguous) ∧
    (Grammar.ofAutomaton a).transition.ambiguous = [] ∧
      (Grammar.ofAutomaton a).recovery.ambiguous = [] := by
  rw [Productions.ambiguous_eq_nil_iff, Productions.ambiguous_eq_nil_iff, and_self]
  cases hboundary : a.boundary with
  | blank blank =>
    rw [Unrestricted.ofAutomaton_eq hboundary]
    constructor
    · exact Productions.unambiguous_ofList fun p hp p' hp' =>
        Unrestricted.transition_right_unique hp hp'
    · exact Productions.unambiguous_ofList fun p hp p' hp' =>
        Unrestricted.recovery_right_unique hp hp'
  | markers left right =>
    rw [ContextSensitive.ofAutomaton_eq hboundary]
    constructor
    · exact Productions.unambiguous_ofList fun p hp p' hp' =>
        ContextSensitive.transition_right_unique ha hboundary hp hp'
    · exact Productions.unambiguous_ofList fun p hp p' hp' =>
        ContextSensitive.recovery_right_unique ha hboundary hp hp'

/-- The visitor is bounded and the walker is not.  Neither has alternatives outside of generation, where
both helpers of the visitor need them. -/
theorem visitor_tables_unambiguous :
    (Grammar.ofAutomaton ContextSensitive.visitor).generation.ambiguous =
      [[ContextSensitive.placeState], [ContextSensitive.layLetters]] ∧
    (Grammar.ofAutomaton ContextSensitive.visitor).transition.ambiguous = [] ∧
    (Grammar.ofAutomaton ContextSensitive.visitor).recovery.ambiguous = [] ∧
    (Grammar.ofAutomaton Unrestricted.walker).transition.Unambiguous ∧
    (Grammar.ofAutomaton Unrestricted.walker).recovery.Unambiguous :=
  ⟨by decide, (tables_unambiguous (by decide)).2.1, (tables_unambiguous (by decide)).2.2,
    (tables_unambiguous (by decide)).1⟩

end TapeGrammar
