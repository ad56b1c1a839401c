import TapeGrammar.Proofs.Agreement
import TapeGrammar.Proofs.Unrestricted.Language

/-!
# Checks of an unrestricted grammar

A Turing machine runs on a tape without end, and its grammar on a row of cells that is made again
with more padding whenever it is too short.  The two are in lock-step nevertheless, so a check and a
direct run agree on every word.
-/

namespace TapeGrammar.Unrestricted

variable {a : Automaton} {blank : String}

/-- **The check of a Turing machine agrees with its run**, on every word and with every limit, unless
a size leaves the 64-bit range.  That does not happen where the word and the run are short enough.
The grammar never contradicts its automaton, and a session that compares the two never finds a
difference. -/
theorem check_agrees_with_run (ha : a.WellFormed) (hb : a.boundary = .blank blank)
    (limit : Option Nat) (word : Word) :
    (Fits a limit word →
      ¬ (Grammar.ofAutomaton a).Answers limit word (.error (.fault .overflow))) ∧
    (¬ (Grammar.ofAutomaton a).Answers limit word (.error (.fault .overflow)) →
      Agrees (Grammar.ofAutomaton a) limit word) ∧
    (∀ cause, ¬ (Grammar.ofAutomaton a).Answers limit word (.error (.violation cause))) ∧
    ∀ (bounded : Automaton) (preferences : Preferences) (fuel n : Nat) (outcome : Outcome)
      (verdict : Verdict),
      (Session.ofAutomata a bounded preferences).check fuel .unbounded n ≠
        some (.error (.disagreement outcome verdict)) := by
  have hauto : (Grammar.ofAutomaton a).automaton = a := automaton_eq hb
  have L : ∀ word, (Grammar.ofAutomaton a).automaton.Takes word →
      LockStep (Grammar.ofAutomaton a).automaton (Grammar.ofAutomaton a) word (Mirrors a word)
        (edge? a word) := by
    intro word
    rw [hauto]
    exact lockStep ha hb
  refine ⟨?_, agrees_of_lockStep (L word) limit, not_answers_violation (L word) limit, ?_⟩
  · intro hfits h
    have hlarge := overflows_of_answers (L word) h
    rw [hauto] at hlarge
    exact hfits.not_overflows hlarge
  · intro bounded preferences fuel n outcome verdict
    have hg : (Session.ofAutomata a bounded preferences).grammar .unbounded =
        Grammar.ofAutomaton a := rfl
    exact check_ne_disagreement hg (L (Unary.word n)) fuel outcome verdict

/-- The walker and its grammar agree on the number one: it is accepted after two steps. -/
theorem walker_agrees : Agrees (Grammar.ofAutomaton walker) none ["1"] ∧
    walker.RunsTo none ["1"] (.ok ⟨"q1", 2, true⟩) ∧
    ∃ trace, (Grammar.ofAutomaton walker).Answers none ["1"] (.ok (.accepted ⟨"q1", 2, trace⟩ ["1"])) := by
  obtain ⟨verdict, hverdict⟩ : ∃ verdict,
      (Grammar.ofAutomaton walker).Answers none ["1"] (.ok verdict) :=
    Grammar.exists_verdict 20 (by decide)
  have hagrees : Agrees (Grammar.ofAutomaton walker) none ["1"] := by
    refine (check_agrees_with_run (by decide) rfl none ["1"]).2.1 fun hoverflow => ?_
    cases hoverflow.unique hverdict
  have hrun : walker.RunsTo none ["1"] (.ok ⟨"q1", 2, true⟩) := by
    have hends : ((Configuration.initial walker).run walker none 20 ["1"]).any
        (fun ended => ended.1 = .ok ⟨"q1", 2, true⟩) = true := by
      decide
    obtain ⟨⟨result, c⟩, hends, hresult⟩ := (Option.any_eq_true _ _).mp hends
    exact ⟨20, c, hends.trans (congrArg (fun result => some (result, c)) (of_decide_eq_true hresult))⟩
  refine ⟨hagrees, hrun, ?_⟩
  -- the verdict reports what the run comes to
  have hautomaton : (Grammar.ofAutomaton walker).automaton = walker := automaton_eq rfl
  obtain ⟨verdict, hverdict, hreports⟩ := (hagrees.outcome _).mp (hautomaton.symm ▸ hrun)
  cases verdict with
  | rejected halt => cases hreports.accepted_iff
  | accepted halt letters =>
    obtain rfl := hreports.letters_eq halt letters rfl
    obtain ⟨state, steps, trace⟩ := halt
    obtain rfl : state = "q1" := hreports.state_eq
    obtain rfl : steps = 2 := hreports.steps_eq
    exact ⟨trace, hverdict⟩

end TapeGrammar.Unrestricted
