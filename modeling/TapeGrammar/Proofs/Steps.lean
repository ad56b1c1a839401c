import TapeGrammar.Proofs.LockStep

/-!
# So many steps of a derivation

The steps of a derivation are counted like the moves of a machine: `Derivation.after? g n d` is the
derivation that `n` steps lead to, if that many can be made.  A derivation that mirrors the beginning
of a run makes no step that is not a move, so what it has reached after `n` steps mirrors the
configuration after `n` moves (`LockStep.mirrors_of_after?`), and as long as there is room every move
is a step (`LockStep.exists_after?_of_room`).
-/

namespace TapeGrammar

namespace Derivation

variable {g : Grammar} {d d' : Derivation} {n : Nat}

/-- The derivation after so many steps, if there are that many. -/
def after? (g : Grammar) : (n : Nat) → Derivation → Except Fault (Option Derivation)
  | 0, d => .ok (some d)
  | n + 1, d =>
    match after? g n d with
    | .ok (some d) => step g d
    | outcome => outcome

theorem after?_succ_iff : after? g (n + 1) d = .ok (some d') ↔
    ∃ d₁, after? g n d = .ok (some d₁) ∧ step g d₁ = .ok (some d') := by
  rw [after?]
  split
  · rename_i d₁ h₁
    simp [h₁]
  · rename_i hother
    constructor
    · intro h
      exact absurd h (hother d')
    · rintro ⟨d₁, h₁, -⟩
      exact absurd h₁ (hother d₁)

/-- **A simulation ends with a derivation that so many steps lead to.** -/
theorem exists_after?_of_toHalt {limit : Option Nat} {fuel : Nat}
    (h : toHalt g limit fuel d = some (.ok d')) : ∃ n, after? g n d = .ok (some d') := by
  refine iterate_invariant (I := fun s => ∃ n, after? g n d = .ok (some s))
    (P := fun out => ∀ d', out = .ok d' → ∃ n, after? g n d = .ok (some d')) ?_ ?_ ⟨0, rfl⟩ h d' rfl
  · rintro s next ⟨n, hs⟩ hround
    simp only [stepRound, Option.some.injEq] at hround
    split at hround
    · cases hround
    · cases hround
    · rename_i d₁ hstep
      split at hround
      · cases hround
      · cases hround
        exact ⟨n + 1, after?_succ_iff.mpr ⟨s, hs, hstep⟩⟩
  · rintro s out ⟨n, hs⟩ hround d' rfl
    simp only [stepRound, Option.some.injEq] at hround
    split at hround
    · cases hround
    · cases hround
      exact ⟨n, hs⟩
    · split at hround <;> cases hround

end Derivation

namespace LockStep

variable {a : Automaton} {g : Grammar} {word : Word}
  {Mirrors : Padding → Derivation → Configuration → Prop}
  {edge? : Padding → Configuration → Option Direction}
  {padding : Padding} {d d' : Derivation} {c : Configuration}

/-- **A step of the derivation is a move of the machine.** -/
theorem move_of_step (L : LockStep a g word Mirrors edge?) (h : Mirrors padding d c)
    (hstep : Derivation.step g d = .ok (some d')) :
    ∃ move, c.pending? a = some move ∧ edge? padding c = none ∧
      Mirrors padding d' (c.apply a move) := by
  have hfree : ¬ (c.pending? a = none ∨ edge? padding c ≠ none) := by
    intro hstuck
    rw [L.stuck h hstuck] at hstep
    cases hstep
  rw [not_or, not_not] at hfree
  obtain ⟨move, hmove⟩ := Option.ne_none_iff_exists'.mp hfree.1
  obtain ⟨next, hnext, hmirrors⟩ := L.moved h hmove hfree.2
  rw [hstep] at hnext
  cases hnext
  exact ⟨move, hmove, hfree.2, hmirrors⟩

/-- **After so many steps the derivation mirrors the configuration after as many moves.** -/
theorem mirrors_of_after? (L : LockStep a g word Mirrors edge?) {d₀ : Derivation}
    (h₀ : Mirrors padding d₀ (.ofWord a word)) {n : Nat}
    (h : Derivation.after? g n d₀ = .ok (some d)) :
    ∃ c, Configuration.after? a n (.ofWord a word) = some c ∧ Mirrors padding d c := by
  induction n generalizing d with
  | zero =>
    cases h
    exact ⟨_, rfl, h₀⟩
  | succ n ih =>
    obtain ⟨d₁, h₁, hstep⟩ := Derivation.after?_succ_iff.mp h
    obtain ⟨c₁, hc₁, hmirrors₁⟩ := ih h₁
    obtain ⟨move, hmove, -, hmirrors⟩ := L.move_of_step hmirrors₁ hstep
    exact ⟨_, Configuration.after?_succ hc₁ hmove, hmirrors⟩

/-- **So many moves with room are as many steps.** -/
theorem exists_after?_of_room (L : LockStep a g word Mirrors edge?) (padding : Padding)
    {d₀ : Derivation} (h₀ : Mirrors padding d₀ (.ofWord a word)) {n : Nat}
    (hroom : ∀ m c, m < n → Configuration.after? a m (.ofWord a word) = some c →
      edge? padding c = none)
    (h : Configuration.after? a n (.ofWord a word) = some c) :
    ∃ d, Derivation.after? g n d₀ = .ok (some d) ∧ Mirrors padding d c := by
  induction n generalizing c with
  | zero =>
    cases h
    exact ⟨d₀, rfl, h₀⟩
  | succ n ih =>
    obtain ⟨c₁, move, h₁, hmove, rfl⟩ := Configuration.after?_succ_iff.mp h
    obtain ⟨d₁, hd₁, hmirrors⟩ := ih (fun m c hm => hroom m c (by omega)) h₁
    obtain ⟨d, hstep, hd⟩ := L.moved hmirrors hmove (hroom n c₁ (Nat.lt_succ_self n) h₁)
    exact ⟨d, Derivation.after?_succ_iff.mpr ⟨d₁, hd₁, hstep⟩, hd⟩

/-- A step can be made exactly if there is a move with room for it. -/
theorem step_eq_none_iff (L : LockStep a g word Mirrors edge?) (h : Mirrors padding d c) :
    Derivation.step g d = .ok none ↔ c.pending? a = none ∨ edge? padding c ≠ none := by
  refine ⟨fun hstep => ?_, L.stuck h⟩
  by_contra hfree
  rw [not_or, not_not] at hfree
  obtain ⟨move, hmove⟩ := Option.ne_none_iff_exists'.mp hfree.1
  obtain ⟨next, hnext, -⟩ := L.moved h hmove hfree.2
  rw [hstep] at hnext
  cases hnext

end LockStep

end TapeGrammar
