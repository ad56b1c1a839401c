import TapeGrammar.Proofs.Planning
import TapeGrammar.Proofs.Steps
import TapeGrammar.Proofs.Trace

/-!
# How far a derivation gets

Without a well-formed automaton nothing says where the state is, or that there is one.  But the cursor
is a number, and a step moves it by one position at most; and the productions of a Turing machine
keep the length of a form.  So in a certain number of steps the cursor stays within that distance of
the padding (`Within`), and if the simulation ends for want of cells, the padding on that side is no
larger than the number of steps.

That is why a limit on the steps is also one on the padding: what has to be doubled is within the limit
(`Unrestricted.padding_le_of_missing`).
-/

namespace TapeGrammar

variable {a : Automaton} {g : Grammar} {d d' d₀ : Derivation} {k : Nat} {word : Word}
  {padding : Padding}

namespace Derivation

/-! ## 1. Steps -/

/-- A simulation begins with the cursor behind the padding to the left, or on the first composite. -/
theorem cursor_of_ofWord (h : ofWord g word padding = .ok d) :
    d.cursor = g.kind.firstCursor padding := by
  simp only [ofWord] at h
  split at h
  · cases h
  · cases h
    rfl

/-- What is reached from the beginning of a simulation: transition productions have led there, and the
cursor has moved by one position at most with each of the steps. -/
structure Within (g : Grammar) (d₀ d : Derivation) : Prop where
  derives : Derives (· ∈ g.transition) d₀.form d.form
  cursor_le : d.cursor ≤ d₀.cursor + d.steps
  le_cursor : d₀.cursor ≤ d.cursor + d.steps

theorem within_refl (g : Grammar) (d : Derivation) : Within g d d :=
  ⟨.refl, Nat.le_add_right _ _, Nat.le_add_right _ _⟩

/-- A step leaves the cursor where its site says. -/
theorem cursor_of_stepAt {site : Site} (h : stepAt g d site = .ok (some d')) :
    d'.cursor = site.next := by
  unfold stepAt at h
  split at h
  · cases h
  · split at h
    · cases h
    · split at h
      · cases h
      · cases h
        rfl
      · cases h

/-- **A step moves the cursor by one position at most.** -/
theorem Within.step (hd : Within g d₀ d) (h : step g d = .ok (some d')) :
    Within g d₀ d' ∧ d'.steps = d.steps + 1 := by
  obtain ⟨site, hmem, hsite⟩ := exists_site_of_stepAmong h
  obtain ⟨p, hp, hsteps⟩ := replays_of_stepAt hsite
  have hcursor := cursor_of_stepAt hsite
  have hnear : d'.cursor ≤ d.cursor + 1 ∧ d.cursor ≤ d'.cursor + 1 := by
    rcases mem_sites_iff.mp hmem with rfl | rfl | ⟨hpos, rfl⟩ <;> simp only at hcursor <;> omega
  have hcursor_le := hd.cursor_le
  have hle_cursor := hd.le_cursor
  refine ⟨⟨hd.derives.trans hp.derives, ?_, ?_⟩, hsteps⟩ <;> omega

/-- After so many steps. -/
theorem within_after? {n : Nat} (hzero : d₀.steps = 0) (h : after? g n d₀ = .ok (some d)) :
    Within g d₀ d ∧ d.steps = n := by
  induction n generalizing d with
  | zero =>
    cases h
    exact ⟨within_refl g _, hzero⟩
  | succ n ih =>
    obtain ⟨d₁, h₁, hstep⟩ := after?_succ_iff.mp h
    obtain ⟨hwithin, hsteps⟩ := ih h₁
    obtain ⟨hwithin', hsteps'⟩ := hwithin.step hstep
    exact ⟨hwithin', by omega⟩

/-! ## 2. Simulation with a limit -/

/-- Steps within a limit. -/
def Limited (g : Grammar) (k : Nat) (d₀ d : Derivation) : Prop := Within g d₀ d ∧ d.steps ≤ k

/-- A round of the simulation ends it, or is one more step within the limit. -/
theorem stepRound_limited (h : Limited g k d₀ d) :
    stepRound g (some k) d = .done (.ok d) ∨
      stepRound g (some k) d = .done (.error (.stepLimit k)) ∨
      ∃ d', stepRound g (some k) d = .again d' ∧ Limited g k d₀ d' ∧ d'.steps = d.steps + 1 := by
  obtain ⟨hwithin, hle⟩ := h
  cases hstep : step g d with
  | error fault => exact absurd hstep step_ne_error
  | ok outcome =>
    cases outcome with
    | none => exact Or.inl (by simp only [stepRound, hstep])
    | some d' =>
      obtain ⟨hwithin', hsteps⟩ := hwithin.step hstep
      by_cases hlt : k < d'.steps
      · have hexceeded : exceeded (some k) d'.steps = some k := by simp [exceeded, hlt]
        exact Or.inr (Or.inl (by simp only [stepRound, hstep, hexceeded]))
      · have hkept : exceeded (some k) d'.steps = none := by simp [exceeded, Nat.not_lt.mp hlt]
        refine Or.inr (Or.inr ⟨d', ?_, ⟨hwithin', by omega⟩, hsteps⟩)
        simp only [stepRound, hstep, hkept]

/-- How a simulation with a limit ends: for want of a step, or at the limit. -/
inductive Halts (g : Grammar) (k : Nat) (d₀ : Derivation) : Except CheckError Derivation → Prop where
  | stuck (d : Derivation) (h : Limited g k d₀ d) : Halts g k d₀ (.ok d)
  | exceeded : Halts g k d₀ (.error (.stepLimit k))

/-- **A simulation with a limit comes to an end.** -/
theorem toHalt_limited (g : Grammar) (k : Nat) (hzero : d₀.steps = 0) :
    ∃ result, toHalt g (some k) (k + 1) d₀ = some result ∧ Halts g k d₀ result := by
  have hbegin : Limited g k d₀ d₀ := ⟨within_refl g d₀, by omega⟩
  refine iterate_ends (I := Limited g k d₀) (P := Halts g k d₀) (m := fun d => k - d.steps) ?_ hbegin
    (by omega)
  intro d hd
  rcases stepRound_limited hd with hstuck | hexceeded | ⟨d', hagain, hd', hsteps⟩
  · exact Or.inl ⟨_, congrArg some hstuck, .stuck d hd⟩
  · exact Or.inl ⟨_, congrArg some hexceeded, .exceeded⟩
  · have := hd'.2
    exact Or.inr ⟨d', congrArg some hagain, hd', by omega⟩

/-! ## 3. Cells that are missing -/

/-- Cells are missed at the end of a row that a Turing machine works on. -/
theorem missingSide?_eq_some {side : Direction} (h : missingSide? g d = some side) :
    (∃ blank, g.automaton.blank? = some blank) ∧
      (side = .left ∧ d.cursor = 0 ∨ side = .right ∧ d.cursor + 1 = d.form.length) := by
  simp only [missingSide?, Option.bind_eq_bind, Option.bind_eq_some_iff] at h
  obtain ⟨blank, hblank, _, -, _, -, _, -, _, -, hside⟩ := h
  refine ⟨⟨blank, hblank⟩, ?_⟩
  split at hside
  · rename_i hzero
    exact Or.inl ⟨(Option.some.inj hside).symm, hzero⟩
  · split at hside
    · rename_i hlast
      exact Or.inr ⟨(Option.some.inj hside).symm, hlast⟩
    · cases hside

end Derivation

namespace Unrestricted

/-- Both sides of a transition production have the same length. -/
theorem length_transition {p : Production} (hp : p ∈ transition a) :
    p.right.length = p.left.length := by
  obtain ⟨q, x, move, origin, -, -, ⟨-, rfl⟩ | ⟨-, before, -, symbol, -, rfl⟩⟩ :=
    mem_transition_iff.mp hp <;> rfl

/-- **The padding on a side where cells are missed is no larger than the number of steps**, and on the
right that holds of the word and the padding together. -/
theorem padding_le_of_missing {blank : String} (hb : a.boundary = .blank blank)
    (hgenerated : Derivation.ofWord (Grammar.ofAutomaton a) word padding = .ok d₀)
    (hwithin : Derivation.Within (Grammar.ofAutomaton a) d₀ d) {side : Direction}
    (hmissing : Derivation.missingSide? (Grammar.ofAutomaton a) d = some side) :
    (side = .left ∧ padding.left ≤ d.steps) ∨
      (side = .right ∧ padding.right + word.length ≤ d.steps) := by
  have hcursor : d₀.cursor = padding.left := by
    rw [Derivation.cursor_of_ofWord hgenerated, kind_eq hb]
    rfl
  have hlength : d.form.length = padding.left + word.length + padding.right + 1 := by
    rw [← length_of_ofWord hb hgenerated]
    exact hwithin.derives.length_eq fun p hp => length_transition ((mem_transition hb).mp hp)
  have hcursor_le := hwithin.cursor_le
  have hle_cursor := hwithin.le_cursor
  obtain ⟨-, ⟨hside, hzero⟩ | ⟨hside, hlast⟩⟩ := Derivation.missingSide?_eq_some hmissing
  · exact Or.inl ⟨hside, by omega⟩
  · exact Or.inr ⟨hside, by omega⟩

end Unrestricted

end TapeGrammar
