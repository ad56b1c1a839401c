import TapeGrammar.Proofs.Fuel
import TapeGrammar.Proofs.Run
import TapeGrammar.Proofs.Unrestricted.Language

/-!
# A limit only cuts

A check looks at the limit after every step of every attempt, and nowhere else.  So a check with a limit
does the same as one with a higher limit, or with none, until it is cut (`Grammar.check_cut`): the same
paddings are tried, the same forms are made, and what comes out has the same trace.

Nothing is asked of the automaton.  The two checks go through the same rounds because a round depends on
its limit in one place only, whatever the tables hold.
-/

namespace TapeGrammar

open TapeGrammar.Configuration (Allows)

/-! ## 1. Loops that are cut -/

section

variable {σ α : Type} {round round' : σ → Option (Round σ α)} {cut : α}

/-- **A loop whose rounds may be cut is cut, or does what it does otherwise.** -/
theorem iterate_cut (h : ∀ state, round state = round' state ∨ round state = some (.done cut))
    (fuel : Nat) (state : σ) :
    iterate round fuel state = iterate round' fuel state ∨
      iterate round fuel state = some cut := by
  induction fuel generalizing state with
  | zero => exact Or.inl rfl
  | succ fuel ih =>
    rcases h state with hsame | hcut
    · unfold iterate
      rw [hsame]
      split
      · exact Or.inl rfl
      · exact ih _
      · exact Or.inl rfl
    · exact Or.inr (iterate_succ_of_done hcut)

end

variable {g : Grammar} {limit : Option Nat} {k : Nat} {word : Word}

/-! ## 2. One attempt -/

namespace Derivation

/-- The lower limit is exceeded first. -/
theorem exceeded_cut (hle : Allows limit k) (steps : Nat) :
    exceeded (some k) steps = exceeded limit steps ∨ exceeded (some k) steps = some k := by
  unfold exceeded
  rcases Nat.lt_or_ge k steps with hlt | hge
  · exact Or.inr (Configuration.filter_lt_eq_some_iff.mpr ⟨rfl, hlt⟩)
  · have hlow : Allows (some k) steps := by
      rintro _ ⟨⟩
      exact hge
    have hhigh : Allows limit steps := fun k' hk' => Nat.le_trans hge (hle k' hk')
    rw [Configuration.filter_lt_eq_none_iff.mpr hlow, Configuration.filter_lt_eq_none_iff.mpr hhigh]
    exact Or.inl rfl

/-- One round of the simulation. -/
theorem stepRound_cut (hle : Allows limit k) (d : Derivation) :
    stepRound g (some k) d = stepRound g limit d ∨
      stepRound g (some k) d = .done (.error (.stepLimit k)) := by
  unfold stepRound
  split
  · exact Or.inl rfl
  · exact Or.inl rfl
  · rename_i next hstep
    rcases exceeded_cut hle next.steps with hsame | hcut
    · rw [hsame]
      exact Or.inl rfl
    · rw [hcut]
      exact Or.inr rfl

/-- The simulation. -/
theorem toHalt_cut (hle : Allows limit k) (fuel : Nat) (d : Derivation) :
    toHalt g (some k) fuel d = toHalt g limit fuel d ∨
      toHalt g (some k) fuel d = some (.error (.stepLimit k)) := by
  refine iterate_cut (fun d => ?_) fuel d
  rcases stepRound_cut (g := g) hle d with hsame | hcut
  · exact Or.inl (congrArg some hsame)
  · exact Or.inr (congrArg some hcut)

/-- **One attempt with the lower limit is cut, or it ends as with the higher one**: with the same
derivation, or with the same padding to be tried next. -/
theorem attempt_cut (hle : Allows limit k) (fuel : Nat) (word : Word) (padding : Padding) :
    attempt g (some k) fuel word padding = attempt g limit fuel word padding ∨
      attempt g (some k) fuel word padding = some (.done (.error (.stepLimit k))) := by
  unfold attempt
  split
  · exact Or.inl rfl
  · rename_i generated hgenerated
    rcases toHalt_cut (g := g) hle fuel generated with hsame | hcut
    · rw [hsame]
      exact Or.inl rfl
    · rw [hcut]
      exact Or.inr rfl

end Derivation

/-! ## 3. The check -/

/-- **A check with the lower limit is cut, or it does what the check with the higher one does**, with
the same fuel. -/
theorem Grammar.check_cut (g : Grammar) (hle : Allows limit k) (fuel : Nat) (word : Word) :
    g.check (some k) fuel word = g.check limit fuel word ∨
      g.check (some k) fuel word = some (.error (.stepLimit k)) := by
  unfold check
  split
  · exact Or.inl rfl
  · split
    · exact Or.inl rfl
    · rename_i padding hpadding
      rcases iterate_cut (Derivation.attempt_cut (g := g) hle fuel word) fuel padding with
        hsame | hcut
      · rw [hsame]
        exact Or.inl rfl
      · rw [hcut]
        exact Or.inr rfl

/-- **The limit of a check only cuts, it never changes an answer.**  What a check answers with a limit,
other than that the limit is exceeded, is the answer with every higher limit and without one; and what it
answers with the higher limit is the answer with the lower one, unless that limit is exceeded. -/
theorem answers_of_lower_limit (g : Grammar) (word : Word) (hle : Allows limit k) :
    (∀ result, g.Answers (some k) word result → result ≠ .error (.stepLimit k) →
      g.Answers limit word result) ∧
    ∀ result, g.Answers limit word result →
      g.Answers (some k) word result ∨ g.Answers (some k) word (.error (.stepLimit k)) := by
  constructor
  · rintro result ⟨fuel, hanswer⟩ hresult
    rcases g.check_cut hle fuel word with hsame | hcut
    · exact ⟨fuel, hsame ▸ hanswer⟩
    · rw [hcut] at hanswer
      exact absurd (Option.some.inj hanswer).symm hresult
  · rintro result ⟨fuel, hanswer⟩
    rcases g.check_cut hle fuel word with hsame | hcut
    · exact Or.inl ⟨fuel, hsame.trans hanswer⟩
    · exact Or.inr ⟨fuel, hcut⟩

/-- The walker makes two steps on the number one.  With a limit of two steps it gets the verdict that it
gets with a limit of five and without one; a limit of one step is exceeded. -/
theorem walker_limits : ∃ verdict,
    (Allows (some 5) 2 ∧ (Grammar.ofAutomaton Unrestricted.walker).Answers (some 2) ["1"] (.ok verdict) ∧
      (Grammar.ofAutomaton Unrestricted.walker).Answers (some 5) ["1"] (.ok verdict)) ∧
    (Allows none 1 ∧ (Grammar.ofAutomaton Unrestricted.walker).Answers none ["1"] (.ok verdict) ∧
      (Grammar.ofAutomaton Unrestricted.walker).Answers (some 1) ["1"] (.error (.stepLimit 1))) := by
  have hfive : Allows (some 5) 2 := by
    rintro _ ⟨⟩
    decide
  have hnone : ∀ k, Allows none k := by
    rintro k _ ⟨⟩
  obtain ⟨verdict, htwo⟩ : ∃ verdict, (Grammar.ofAutomaton Unrestricted.walker).Answers (some 2) ["1"]
      (.ok verdict) := Grammar.exists_verdict 20 (by decide)
  have hone : (Grammar.ofAutomaton Unrestricted.walker).Answers (some 1) ["1"]
      (.error (.stepLimit 1)) := ⟨20, by decide⟩
  have hunlimited := (answers_of_lower_limit _ ["1"] (hnone 2)).1 _ htwo (by simp)
  refine ⟨verdict, ⟨hfive, htwo, (answers_of_lower_limit _ ["1"] hfive).1 _ htwo (by simp)⟩,
    hnone 1, hunlimited, ?_⟩
  -- the verdict is not the answer with the limit of one step, so the limit is exceeded
  refine ((answers_of_lower_limit _ ["1"] (hnone 1)).2 _ hunlimited).resolve_left fun hverdict => ?_
  exact absurd (hverdict.unique hone) (by simp)

end TapeGrammar
