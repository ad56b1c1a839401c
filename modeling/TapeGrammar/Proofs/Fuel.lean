import TapeGrammar.Derivation.Check

/-!
# More fuel

A check is made of loops inside loops, all with the same fuel.  More fuel keeps every answer of the
check (`Grammar.check_of_le`): so a check has at most one answer, whatever the fuel
(`Grammar.Answers.unique`), and statements about a check need not mention an amount.
-/

namespace TapeGrammar

namespace Derivation

variable {g : Grammar} {limit : Option Nat} {fuel more : Nat} {word : Word} {d : Derivation}

theorem toHalt_of_le (hle : fuel ≤ more) {result : Except CheckError Derivation}
    (h : toHalt g limit fuel d = some result) : toHalt g limit more d = some result :=
  iterate_of_le hle h

theorem attempt_of_le (hle : fuel ≤ more) {padding : Padding}
    {result : Round Padding (Except CheckError Derivation)}
    (h : attempt g limit fuel word padding = some result) :
    attempt g limit more word padding = some result := by
  unfold attempt at h ⊢
  split
  · rename_i error herror
    rw [herror] at h
    exact h
  · rename_i generated hgenerated
    rw [hgenerated] at h
    simp only at h
    cases hhalt : toHalt g limit fuel generated with
    | none =>
      rw [hhalt] at h
      cases h
    | some outcome =>
      rw [hhalt] at h
      rw [toHalt_of_le hle hhalt]
      exact h

theorem removeTokens_of_le (hle : fuel ≤ more) {state : String} {t : TracedForm}
    {result : Except CheckError (Nat × TracedForm)}
    (h : removeTokens g fuel state t = some result) :
    removeTokens g more state t = some result := by
  simp only [removeTokens] at h ⊢
  cases hfirst : g.recovery.first? [.nonTerminal [state]] with
  | none =>
    rw [hfirst] at h
    exact h
  | some right =>
    rw [hfirst] at h
    exact iterate_of_le hle h

theorem recoverWord_of_le (hle : fuel ≤ more) {state : String}
    {result : Except CheckError TracedForm} (h : recoverWord g fuel state d = some result) :
    recoverWord g more state d = some result := by
  unfold recoverWord at h ⊢
  split
  · rename_i error herror
    rw [herror] at h
    exact h
  · rename_i begun hbegun
    rw [hbegun] at h
    simp only at h
    cases hright : recoverRight g fuel d.cursor begun with
    | none =>
      rw [hright] at h
      cases h
    | some outcome =>
      rw [hright] at h
      have hright' : recoverRight g more d.cursor begun = some outcome := iterate_of_le hle hright
      rw [hright']
      cases outcome with
      | error error => exact h
      | ok t =>
        simp only at h ⊢
        cases hleft : recoverLeft g d.cursor t with
        | error error =>
          rw [hleft] at h
          exact h
        | ok both =>
          rw [hleft] at h
          simp only at h ⊢
          cases hremove : removeTokens g fuel state both with
          | none =>
            rw [hremove] at h
            cases h
          | some outcome =>
            rw [hremove] at h
            rw [removeTokens_of_le hle hremove]
            exact h

theorem conclude_of_le (hle : fuel ≤ more) {result : Except CheckError Verdict}
    (h : conclude g fuel word d = some result) : conclude g more word d = some result := by
  unfold conclude at h ⊢
  split
  · rename_i error herror
    rw [herror] at h
    exact h
  · rename_i state hstate
    rw [hstate] at h
    simp only at h ⊢
    split
    · rename_i hfinal
      rw [if_pos hfinal] at h
      cases hword : recoverWord g fuel state d with
      | none =>
        rw [hword] at h
        cases h
      | some outcome =>
        rw [hword] at h
        rw [recoverWord_of_le hle hword]
        exact h
    · rename_i hfinal
      rw [if_neg hfinal] at h
      exact h

end Derivation

namespace Grammar

variable {g : Grammar} {limit : Option Nat} {fuel more : Nat} {word : Word}

/-- Attempts that end, with enough fuel for each and for all of them. -/
theorem attempts_of_le {padding : Padding} {settled : Except CheckError Derivation} {most : Nat}
    (hfuel : fuel ≤ most) (hmore : more ≤ most)
    (h : iterate (Derivation.attempt g limit fuel word) more padding = some settled) :
    iterate (Derivation.attempt g limit most word) most padding = some settled :=
  iterate_of_le hmore (iterate_mono (fun _ _ => Derivation.attempt_of_le hfuel) h)

/-- **More fuel keeps the answer of a check.** -/
theorem check_of_le (hle : fuel ≤ more) {result : Except CheckError Verdict}
    (h : g.check limit fuel word = some result) : g.check limit more word = some result := by
  unfold check at h ⊢
  split
  · rename_i error herror
    rw [herror] at h
    exact h
  · rename_i hword
    rw [hword] at h
    simp only at h ⊢
    cases hpadding : Padding.forLength word.length with
    | error fault =>
      rw [hpadding] at h
      exact h
    | ok padding =>
      rw [hpadding] at h
      simp only at h ⊢
      cases hloop : iterate (Derivation.attempt g limit fuel word) fuel padding with
      | none =>
        rw [hloop] at h
        cases h
      | some outcome =>
        have hloop' := attempts_of_le hle hle hloop
        rw [hloop] at h
        rw [hloop']
        cases outcome with
        | error error => exact h
        | ok d => exact Derivation.conclude_of_le hle h

/-- The answer of a check, with enough fuel. -/
def Answers (g : Grammar) (limit : Option Nat) (word : Word)
    (result : Except CheckError Verdict) : Prop :=
  ∃ fuel, g.check limit fuel word = some result

/-- **A check passes on the error that the attempts at a word end with.** -/
theorem answers_of_attempts_error {padding : Padding} {error : CheckError}
    (hword : g.wordError? word = none) (hfirst : Padding.forLength word.length = .ok padding)
    (h : iterate (Derivation.attempt g limit fuel word) more padding = some (.error error)) :
    g.Answers limit word (.error error) := by
  refine ⟨max fuel more, ?_⟩
  have hloop := attempts_of_le (Nat.le_max_left fuel more) (Nat.le_max_right fuel more) h
  simp only [check, hword, hfirst, hloop]

/-- **A check concludes from the derivation that the attempts at a word end with.** -/
theorem answers_of_attempts {padding : Padding} {d : Derivation} {most : Nat}
    {result : Except CheckError Verdict}
    (hword : g.wordError? word = none) (hfirst : Padding.forLength word.length = .ok padding)
    (h : iterate (Derivation.attempt g limit fuel word) more padding = some (.ok d))
    (hconclude : Derivation.conclude g most word d = some result) :
    g.Answers limit word result := by
  refine ⟨max (max fuel more) most, ?_⟩
  have hloop : iterate (Derivation.attempt g limit (max (max fuel more) most) word)
      (max (max fuel more) most) padding = some (.ok d) :=
    attempts_of_le (by omega) (by omega) h
  simp only [check, hword, hfirst, hloop]
  exact Derivation.conclude_of_le (Nat.le_max_right _ _) hconclude

/-- A check that is seen to end with a verdict answers with one. -/
theorem exists_verdict (fuel : Nat) (h : (g.check limit fuel word).any Except.isOk = true) :
    ∃ verdict, g.Answers limit word (.ok verdict) := by
  obtain ⟨result, hcheck, hok⟩ := (Option.any_eq_true _ _).mp h
  cases result with
  | error error => cases hok
  | ok verdict => exact ⟨verdict, fuel, hcheck⟩

/-- **A check has one answer.** -/
theorem Answers.unique {r r' : Except CheckError Verdict} (h : g.Answers limit word r)
    (h' : g.Answers limit word r') : r = r' := by
  obtain ⟨fuel, hr⟩ := h
  obtain ⟨fuel', hr'⟩ := h'
  have h₁ := check_of_le (Nat.le_max_left fuel fuel') hr
  have h₂ := check_of_le (Nat.le_max_right fuel fuel') hr'
  rw [h₁] at h₂
  exact Option.some.inj h₂

end Grammar

end TapeGrammar
