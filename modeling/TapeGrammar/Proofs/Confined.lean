import TapeGrammar.Derivation.Confined
import TapeGrammar.Proofs.Limits

/-!
# Room only cuts

A check in memory does what the check does that may keep lists of any length, or ends for want of room
(`Grammar.checkWithin_cut`).  So an answer that it gives is the answer of that check
(`Grammar.check_of_checkNumber`), and it gives none for which there is no room.

Nothing is asked of the automaton, as in `TapeGrammar.Proofs.Limits`: in an attempt the room for a trace
acts like a limit on the steps.
-/

namespace TapeGrammar

variable {g : Grammar} {limit : Option Nat} {fuel room n : Nat} {word : Word}

/-- **One attempt in memory is cut, or ends as it does otherwise.** -/
theorem Derivation.attemptWithin_cut (g : Grammar) (room : Nat) (limit : Option Nat) (fuel : Nat)
    (word : Word) (padding : Padding) :
    attemptWithin g room limit fuel word padding = attempt g limit fuel word padding ∨
      attemptWithin g room limit fuel word padding = some (.done (.error (.fault .noRoom))) := by
  unfold attemptWithin
  cases hgenerated : ofWord g word padding with
  | error error =>
    refine Or.inl ?_
    simp only [attempt, hgenerated]
  | ok generated =>
    simp only
    split
    · exact Or.inr rfl
    · split
      · -- the limit is lower than what is left of the room
        rename_i k hlimit
        obtain ⟨rfl, -⟩ := Configuration.filter_lt_eq_some_iff.mp hlimit
        exact Or.inl rfl
      · rename_i hlimit
        have hallows := Configuration.filter_lt_eq_none_iff.mp hlimit
        split
        · exact Or.inr rfl
        · rename_i hround
          rcases attempt_cut (g := g) hallows fuel word padding with hsame | hcut
          · exact Or.inl hsame
          · exact absurd hcut (hround _)

/-- A verdict for which there is room stays as it is. -/
theorem Verdict.within_cut (room : Nat) (verdict : Verdict) :
    verdict.within room = .ok verdict ∨ verdict.within room = .error (.fault .noRoom) := by
  unfold within
  split
  · exact Or.inl rfl
  · exact Or.inr rfl

namespace Grammar

/-- **A check in memory is cut, or does what the check does otherwise**, with the same fuel. -/
theorem checkWithin_cut (g : Grammar) (room : Nat) (limit : Option Nat) (fuel : Nat) (word : Word) :
    g.checkWithin room limit fuel word = g.check limit fuel word ∨
      g.checkWithin room limit fuel word = some (.error (.fault .noRoom)) := by
  cases hword : g.wordError? word with
  | some error => exact Or.inl (by simp only [checkWithin, check, hword])
  | none =>
    cases hpadding : Padding.forLength word.length with
    | error fault => exact Or.inl (by simp only [checkWithin, check, hword, hpadding])
    | ok padding =>
      simp only [checkWithin, check, hword, hpadding]
      rcases iterate_cut (Derivation.attemptWithin_cut g room limit fuel word) fuel padding with
        hsame | hcut
      · rw [hsame]
        cases iterate (Derivation.attempt g limit fuel word) fuel padding with
        | none => exact Or.inl rfl
        | some settled =>
          cases settled with
          | error error => exact Or.inl rfl
          | ok d =>
            simp only
            cases Derivation.conclude g fuel word d with
            | none => exact Or.inl rfl
            | some result =>
              cases result with
              | error error => exact Or.inl rfl
              | ok verdict => exact (verdict.within_cut room).imp (congrArg some) (congrArg some)
      · rw [hcut]
        exact Or.inr rfl

/-- A verdict in memory has a trace for which there is room. -/
theorem length_trace_of_checkWithin {verdict : Verdict}
    (h : g.checkWithin room limit fuel word = some (.ok verdict)) :
    verdict.halt.trace.length ≤ room := by
  unfold checkWithin at h
  split at h
  · cases h
  · split at h
    · cases h
    · split at h
      · cases h
      · cases h
      · obtain ⟨result, -, hwithin⟩ := Option.map_eq_some_iff.mp h
        cases result with
        | error error => cases hwithin
        | ok verdict' =>
          simp only [Except.bind, Verdict.within] at hwithin
          split at hwithin
          · cases hwithin
            assumption
          · cases hwithin

/-- Where there is no room for the trace of the verdict, a check in memory is cut. -/
theorem checkWithin_of_long {verdict : Verdict} (h : g.check limit fuel word = some (.ok verdict))
    (hlong : room < verdict.halt.trace.length) :
    g.checkWithin room limit fuel word = some (.error (.fault .noRoom)) := by
  rcases g.checkWithin_cut room limit fuel word with hsame | hcut
  · have hle := length_trace_of_checkWithin (hsame.trans h)
    exact absurd hle (Nat.not_le_of_lt hlong)
  · exact hcut

/-- The check of a number for which there is room before its first production. -/
theorem checkNumber_eq (hsize : n ≤ Unary.maxLength) (hroom : g.hasRoom (Unary.word n) = true) :
    g.checkNumber limit fuel n = g.checkWithin Room.maxTrace limit fuel (Unary.word n) := by
  simp only [checkNumber, Unary.word?, if_pos hsize, hroom, if_true]

/-- **A verdict in memory is the verdict of the check.** -/
theorem check_of_checkNumber {verdict : Verdict}
    (h : g.checkNumber limit fuel n = some (.ok verdict)) :
    g.check limit fuel (Unary.word n) = some (.ok verdict) := by
  unfold checkNumber Unary.word? at h
  by_cases hsize : n ≤ Unary.maxLength
  · rw [if_pos hsize] at h
    simp only at h
    split at h
    · rcases g.checkWithin_cut Room.maxTrace limit fuel (Unary.word n) with hsame | hcut
      · exact hsame ▸ h
      · rw [hcut] at h
        cases h
    · cases h
  · rw [if_neg hsize] at h
    cases h

end Grammar

end TapeGrammar
