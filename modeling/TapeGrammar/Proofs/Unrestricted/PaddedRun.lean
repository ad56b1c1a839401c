import TapeGrammar.Proofs.Steps
import TapeGrammar.Proofs.Unrestricted.Language

/-!
# Padded runs

With a given padding the derivation generates a finite part of the tape, and simulates the machine on
it.  The result is the run of the machine, cut at the first move that the generated cells have no room
for: the form is the row of these cells with the token put in before the one under the head
(`encode_eq_insertIdx`), and the side on which cells are missing is the one on which the move leaves
the row.

The first time that the machine leaves the row is where it reads behind the last cell, or where it is
about to move to the left of the first one.  So nothing that happens at an edge is taken for a halt, and
a halt inside the row never for an edge: two paddings that both suffice lead to the same end.
-/

namespace TapeGrammar.Unrestricted

open TapeGrammar.Configuration (after?)

variable {a : Automaton} {blank : String} {word : Word} {padding : Padding} {d : Derivation}
  {c : Configuration}

/-! ## 1. The token in the row -/

/-- **The encoding is the row of all cells with the token put in before the one under the head.** -/
theorem encode_eq_insertIdx {first last : Int} (h : Within a word first last c) :
    encode a word first last c =
      (row (cellAt a word c) first (last - first).toNat).insertIdx (c.head - first).toNat
        (token c.state) := by
  have hfirst := h.first_le
  have hlast := h.le_last
  have hlength : (last - first).toNat = (c.head - first).toNat + (last - c.head).toNat := by omega
  have hhead : first + ((c.head - first).toNat : Int) = c.head := by omega
  rw [hlength, insertIdx_row, hhead, encode]

/-! ## 2. The edges -/

/-- The head is behind the last cell. -/
def BehindRow (word : Word) (padding : Padding) (c : Configuration) : Prop :=
  c.head = (word.length : Int) + padding.right

/-- The head is on the first cell, and the machine is about to move to the left. -/
def LeavesLeft (a : Automaton) (padding : Padding) (c : Configuration) : Prop :=
  c.head = -(padding.left : Int) ∧ (c.pending? a).map Move.direction = some .left

/-- The machine halts, or has no room for its move. -/
def Cut (a : Automaton) (word : Word) (padding : Padding) (c : Configuration) : Prop :=
  c.pending? a = none ∨ BehindRow word padding c ∨ LeavesLeft a padding c

instance : Decidable (Cut a word padding c) :=
  inferInstanceAs (Decidable (_ = none ∨ _ = _ ∨ _ = _ ∧ _ = _))

theorem edge?_eq_right_iff : edge? a word padding c = some .right ↔ BehindRow word padding c := by
  unfold edge? BehindRow
  split
  · simp [*]
  · rename_i hright
    split <;> simp [hright]

/-- The row is not empty, so that its two ends are not the same. -/
theorem edge?_eq_left_iff (hne : word ≠ []) :
    edge? a word padding c = some .left ↔ LeavesLeft a padding c := by
  have hlength : 0 < word.length := List.length_pos_iff.mpr hne
  unfold edge? LeavesLeft
  split
  · rename_i hright
    simp only [Option.some.injEq, reduceCtorEq, false_iff, not_and]
    intro hleft
    omega
  · split
    · rename_i hleft
      simp only [hleft, true_and]
    · rename_i hleft
      simp only [reduceCtorEq, hleft]

theorem edge?_ne_none_iff (hne : word ≠ []) :
    edge? a word padding c ≠ none ↔ BehindRow word padding c ∨ LeavesLeft a padding c := by
  rw [← edge?_eq_right_iff (a := a), ← edge?_eq_left_iff hne]
  cases edge? a word padding c with
  | none => simp
  | some side => cases side <;> simp

/-! ## 3. The cut -/

/-- A derivation stops exactly at the cut. -/
theorem step_eq_none_iff_cut (ha : a.WellFormed) (hb : a.boundary = .blank blank)
    (hword : a.Takes word) (h : Mirrors a word padding d c) :
    Derivation.step (Grammar.ofAutomaton a) d = .ok none ↔ Cut a word padding c := by
  rw [(lockStep ha hb hword).step_eq_none_iff h, edge?_ne_none_iff hword.1, Cut]

/-- Before the cut there is a next step. -/
theorem exists_step_iff_not_cut (ha : a.WellFormed) (hb : a.boundary = .blank blank)
    (hword : a.Takes word) (h : Mirrors a word padding d c) :
    (∃ d', Derivation.step (Grammar.ofAutomaton a) d = .ok (some d')) ↔ ¬ Cut a word padding c := by
  rw [← step_eq_none_iff_cut ha hb hword h]
  constructor
  · rintro ⟨d', hstep⟩ hnone
    rw [hstep] at hnone
    cases hnone
  · intro hmore
    rw [(lockStep ha hb hword).step_eq_none_iff h, not_or, not_not] at hmore
    obtain ⟨move, hmove⟩ := Option.ne_none_iff_exists'.mp hmore.1
    obtain ⟨d', hstep, -⟩ := (lockStep ha hb hword).moved h hmove hmore.2
    exact ⟨d', hstep⟩

/-- At the cut, cells are missing on the right exactly if there is a move behind the last one. -/
theorem missingSide?_eq_right_iff (hb : a.boundary = .blank blank) (hword : a.Takes word)
    (h : Mirrors a word padding d c) (hcut : Cut a word padding c) :
    Derivation.missingSide? (Grammar.ofAutomaton a) d = some .right ↔
      c.pending? a ≠ none ∧ BehindRow word padding c := by
  rw [Cut, ← edge?_ne_none_iff hword.1] at hcut
  rw [missingSide?_eq hb hword.1 h hcut, ← edge?_eq_right_iff (a := a)]
  cases c.pending? a <;> simp

/-- At the cut, cells are missing on the left exactly if the machine leaves the row there. -/
theorem missingSide?_eq_left_iff (hb : a.boundary = .blank blank) (hword : a.Takes word)
    (h : Mirrors a word padding d c) (hcut : Cut a word padding c) :
    Derivation.missingSide? (Grammar.ofAutomaton a) d = some .left ↔ LeavesLeft a padding c := by
  rw [Cut, ← edge?_ne_none_iff hword.1] at hcut
  rw [missingSide?_eq hb hword.1 h hcut, ← edge?_eq_left_iff hword.1]
  cases hmove : c.pending? a with
  | none => simp [edge?, hmove]
  | some move => simp

/-- **If no cells are missing at the cut, the machine has halted.** -/
theorem pending?_eq_none_of_missingSide? (hb : a.boundary = .blank blank) (hword : a.Takes word)
    (h : Mirrors a word padding d c) (hcut : Cut a word padding c)
    (hnone : Derivation.missingSide? (Grammar.ofAutomaton a) d = none) : c.pending? a = none := by
  by_contra hmove
  rcases hcut with hhalt | hright | hleft
  · exact hmove hhalt
  · have hside := (missingSide?_eq_right_iff hb hword h (Or.inr (Or.inl hright))).mpr ⟨hmove, hright⟩
    rw [hnone] at hside
    cases hside
  · have hside := (missingSide?_eq_left_iff hb hword h (Or.inr (Or.inr hleft))).mpr hleft
    rw [hnone] at hside
    cases hside

/-- A derivation that has stopped without missing cells mirrors the halt of the machine. -/
theorem halted_of_stopped (ha : a.WellFormed) (hb : a.boundary = .blank blank)
    (hword : a.Takes word) {d₀ : Derivation} {n : Nat}
    (hd₀ : Derivation.ofWord (Grammar.ofAutomaton a) word padding = .ok d₀)
    (hd : Derivation.after? (Grammar.ofAutomaton a) n d₀ = .ok (some d))
    (hstop : Derivation.step (Grammar.ofAutomaton a) d = .ok none)
    (hnone : Derivation.missingSide? (Grammar.ofAutomaton a) d = none) :
    ∃ c, after? a n (.ofWord a word) = some c ∧ c.pending? a = none ∧
      Mirrors a word padding d c := by
  obtain ⟨d₁, hgenerated, h₀⟩ := exists_mirrors_ofWord ha hb hword.2 padding
  obtain rfl : d₁ = d₀ := Except.ok.inj (hgenerated.symm.trans hd₀)
  obtain ⟨c, hc, hmirrors⟩ := (lockStep ha hb hword).mirrors_of_after? h₀ hd
  have hcut := (step_eq_none_iff_cut ha hb hword hmirrors).mp hstop
  exact ⟨c, hc, pending?_eq_none_of_missingSide? hb hword hmirrors hcut hnone, hmirrors⟩

/-- **A padded run is the run of the machine, cut at the first move off the generated tape.**  After
generation with any padding and any number of steps, the form is the row of the generated cells of the
configuration after as many moves, with the token put in before the cell under the head, where the
cursor is.  The derivation stops exactly where the machine halts or has no room for its move, and then
cells are missing exactly on the side on which a move leaves the row.  Any two paddings with which no
cells are missing at the end lead to the same state after the same number of steps. -/
theorem padded_run (ha : a.WellFormed) (hb : a.boundary = .blank blank) (hword : a.Takes word) :
    (∀ padding, ∃ d₀, Derivation.ofWord (Grammar.ofAutomaton a) word padding = .ok d₀ ∧
      ∀ n d, Derivation.after? (Grammar.ofAutomaton a) n d₀ = .ok (some d) →
        ∃ c, after? a n (.ofWord a word) = some c ∧
          d.form = (row (cellAt a word c) (-(padding.left : Int))
            (padding.left + word.length + padding.right)).insertIdx d.cursor (token c.state) ∧
          (d.cursor : Int) = c.head + padding.left ∧ d.steps = n ∧
          (Derivation.step (Grammar.ofAutomaton a) d = .ok none ↔ Cut a word padding c) ∧
          ((∃ d', Derivation.step (Grammar.ofAutomaton a) d = .ok (some d')) ↔
            ¬ Cut a word padding c) ∧
          (Derivation.step (Grammar.ofAutomaton a) d = .ok none →
            (Derivation.missingSide? (Grammar.ofAutomaton a) d = some .right ↔
              c.pending? a ≠ none ∧ BehindRow word padding c) ∧
            (Derivation.missingSide? (Grammar.ofAutomaton a) d = some .left ↔
              LeavesLeft a padding c))) ∧
    ∀ padding padding' d₀ d₀' n n' d d',
      Derivation.ofWord (Grammar.ofAutomaton a) word padding = .ok d₀ →
      Derivation.ofWord (Grammar.ofAutomaton a) word padding' = .ok d₀' →
      Derivation.after? (Grammar.ofAutomaton a) n d₀ = .ok (some d) →
      Derivation.after? (Grammar.ofAutomaton a) n' d₀' = .ok (some d') →
      Derivation.step (Grammar.ofAutomaton a) d = .ok none →
      Derivation.step (Grammar.ofAutomaton a) d' = .ok none →
      Derivation.missingSide? (Grammar.ofAutomaton a) d = none →
      Derivation.missingSide? (Grammar.ofAutomaton a) d' = none →
      n = n' ∧ ∃ state, Derivation.stateCarried (Grammar.ofAutomaton a) d = .ok state ∧
        Derivation.stateCarried (Grammar.ofAutomaton a) d' = .ok state := by
  constructor
  · intro padding
    obtain ⟨d₀, hgenerated, h₀⟩ := exists_mirrors_ofWord ha hb hword.2 padding
    refine ⟨d₀, hgenerated, fun n d hd => ?_⟩
    obtain ⟨c, hc, h⟩ := (lockStep ha hb hword).mirrors_of_after? h₀ hd
    have hfirst := h.within.first_le
    have hcells : ((word.length : Int) + padding.right - -(padding.left : Int)).toNat =
        padding.left + word.length + padding.right := by omega
    refine ⟨c, hc, ?_, ?_, ?_, step_eq_none_iff_cut ha hb hword h,
      exists_step_iff_not_cut ha hb hword h, fun hstop => ?_⟩
    · rw [h.form_eq, encode_eq_insertIdx h.within, hcells, h.cursor_eq]
    · rw [h.cursor_eq]
      omega
    · rw [h.steps_eq, Configuration.steps_after? hc, Configuration.steps_ofWord, Nat.zero_add]
    · have hcut := (step_eq_none_iff_cut ha hb hword h).mp hstop
      exact ⟨missingSide?_eq_right_iff hb hword h hcut, missingSide?_eq_left_iff hb hword h hcut⟩
  · intro padding padding' d₀ d₀' n n' d d' hd₀ hd₀' hd hd' hstop hstop' hnone hnone'
    obtain ⟨c, hc, hhalt, h⟩ := halted_of_stopped ha hb hword hd₀ hd hstop hnone
    obtain ⟨c', hc', hhalt', h'⟩ := halted_of_stopped ha hb hword hd₀' hd' hstop' hnone'
    -- the machine is deterministic, so it halts only once
    obtain rfl : n = n' := Nat.le_antisymm (Configuration.le_of_halted hc' hhalt' hc)
      (Configuration.le_of_halted hc hhalt hc')
    obtain rfl : c = c' := Option.some.inj (hc.symm.trans hc')
    exact ⟨rfl, c.state, stateCarried_eq hb h, stateCarried_eq hb h'⟩

/-- Without padding the walker leaves the row behind the one digit; with one cell on the right, or with
cells on both sides, it halts in the same state. -/
theorem walker_padded_run :
    (∃ d₀ d, Derivation.ofWord (Grammar.ofAutomaton walker) ["1"] ⟨0, 0⟩ = .ok d₀ ∧
      Derivation.after? (Grammar.ofAutomaton walker) 1 d₀ = .ok (some d) ∧
      Derivation.missingSide? (Grammar.ofAutomaton walker) d = some .right) ∧
    ∃ d₀ d₀' d d' state,
      Derivation.ofWord (Grammar.ofAutomaton walker) ["1"] ⟨0, 1⟩ = .ok d₀ ∧
      Derivation.ofWord (Grammar.ofAutomaton walker) ["1"] ⟨1, 3⟩ = .ok d₀' ∧
      Derivation.after? (Grammar.ofAutomaton walker) 2 d₀ = .ok (some d) ∧
      Derivation.after? (Grammar.ofAutomaton walker) 2 d₀' = .ok (some d') ∧
      Derivation.stateCarried (Grammar.ofAutomaton walker) d = .ok state ∧
      Derivation.stateCarried (Grammar.ofAutomaton walker) d' = .ok state := by
  obtain ⟨hrun, hsame⟩ :=
    padded_run (by decide) rfl (by decide : walker.Takes ["1"])
  constructor
  · obtain ⟨d₀, hgenerated, hafter⟩ := hrun ⟨0, 0⟩
    obtain ⟨c₀, hc₀, -, -, -, -, hstep, -⟩ := hafter 0 d₀ rfl
    cases hc₀
    obtain ⟨d, hd⟩ := hstep.mpr (by decide)
    have hd₁ : Derivation.after? (Grammar.ofAutomaton walker) 1 d₀ = .ok (some d) := hd
    obtain ⟨c, hc, -, -, -, hstop, -, hmissing⟩ := hafter 1 d hd₁
    cases hc
    exact ⟨d₀, d, hgenerated, hd₁, (hmissing (hstop.mpr (by decide))).1.mpr ⟨by decide, rfl⟩⟩
  · obtain ⟨-, state, hstate, hstate'⟩ := hsame ⟨0, 1⟩ ⟨1, 3⟩ _ _ 2 2 _ _ rfl rfl rfl rfl
      (by decide) (by decide) (by decide) (by decide)
    exact ⟨_, _, _, _, state, rfl, rfl, rfl, rfl, hstate, hstate'⟩

end TapeGrammar.Unrestricted
