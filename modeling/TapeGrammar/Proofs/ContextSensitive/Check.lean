import TapeGrammar.Proofs.Agreement
import TapeGrammar.Proofs.ContextSensitive.Mirror
import TapeGrammar.Proofs.Steps

/-!
# Checks of a context-sensitive grammar

A bounded automaton and its grammar go step by step together: after any number of steps the form is
the encoding of the configuration, and the one has a step left if the other has.  So a check and a
direct run agree on every word.  There is no padding to run out of, and the only size that is counted
is that of the word.
-/

namespace TapeGrammar

namespace ContextSensitive

open TapeGrammar.Configuration (after?)

variable {a : Automaton} {left right : String} {word : Word} {d d₀ : Derivation} {c : Configuration}

/-- The derivation stops where the automaton halts, and only there. -/
theorem step_eq_none_iff (ha : a.WellFormed) (hm : a.boundary = .markers left right)
    (hword : a.Takes word) (h : Mirrors a (.ofAutomaton a left right) word d c) :
    Derivation.step (Grammar.ofAutomaton a) d = .ok none ↔ (c.step a).1 = .halted := by
  have hstuck : Derivation.step (Grammar.ofAutomaton a) d = .ok none ↔
      c.pending? a = none ∨ (none : Option Direction) ≠ none :=
    @LockStep.step_eq_none_iff _ _ _ _ _ ⟨0, 0⟩ _ _ (lockStep ha hm hword) h
  rw [hstuck, Configuration.step_halted_iff]
  simp

/-- **As many steps of the derivation mirror as many moves of the automaton.** -/
theorem mirrors_after? (ha : a.WellFormed) (hm : a.boundary = .markers left right)
    (hword : a.Takes word)
    (h₀ : Mirrors a (.ofAutomaton a left right) word d₀ (.ofWord a word)) {n : Nat}
    (h : after? a n (.ofWord a word) = some c) :
    ∃ d, Derivation.after? (Grammar.ofAutomaton a) n d₀ = .ok (some d) ∧
      Mirrors a (.ofAutomaton a left right) word d c :=
  (lockStep ha hm hword).exists_after?_of_room ⟨0, 0⟩ h₀ (fun _ _ _ _ => rfl) h

/-- **The grammar of a bounded automaton is in lock-step with it, and its check agrees with the
run.**  On a word that the automaton takes, the form after generation and any number of steps that
the automaton makes has one composite for each letter and encodes the configuration, and there is no
further step exactly if the automaton halts there.  On every word, and with every limit, the check
and the run agree, provided that the size of the word fits the 64-bit range; and the grammar never
contradicts its automaton. -/
theorem check_in_lockStep (ha : a.WellFormed) (hm : a.boundary = .markers left right)
    (limit : Option Nat) (word : Word) :
    (a.Takes word → ∀ padding,
      ∃ d₀, Derivation.ofWord (Grammar.ofAutomaton a) word padding = .ok d₀ ∧
        ∀ n c, after? a n (.ofWord a word) = some c →
          ∃ d, Derivation.after? (Grammar.ofAutomaton a) n d₀ = .ok (some d) ∧
            d.form.length = word.length ∧
            d.form = encode a (.ofAutomaton a left right) word word.length c ∧
            (Derivation.step (Grammar.ofAutomaton a) d = .ok none ↔ (c.step a).1 = .halted)) ∧
    (word.length + 2 ≤ maxSize → Agrees (Grammar.ofAutomaton a) limit word) ∧
    ∀ cause, ¬ (Grammar.ofAutomaton a).Answers limit word (.error (.violation cause)) := by
  have hauto : (Grammar.ofAutomaton a).automaton = a := automaton_eq hm
  have L : (Grammar.ofAutomaton a).automaton.Takes word →
      LockStep (Grammar.ofAutomaton a).automaton (Grammar.ofAutomaton a) word
        (fun _ => Mirrors (Grammar.ofAutomaton a).automaton (.ofAutomaton a left right) word)
        (fun _ _ => none) := by
    rw [hauto]
    exact lockStep ha hm
  refine ⟨?_, ?_, not_answers_violation L limit⟩
  · intro hword padding
    obtain ⟨d₀, hgenerated, h₀⟩ := exists_mirrors_ofWord ha hm hword padding
    refine ⟨d₀, hgenerated, fun n c hc => ?_⟩
    obtain ⟨d, hd, hmirrors⟩ := mirrors_after? ha hm hword h₀ hc
    refine ⟨d, hd, ?_, hmirrors.form_eq, step_eq_none_iff ha hm hword hmirrors⟩
    rw [hmirrors.form_eq, encode, length_row]
  · intro hfits
    refine agrees_of_lockStep L limit fun hoverflow => ?_
    rcases overflows_of_answers L hoverflow with hlarge | ⟨n, c, padding, -, -, hedge, -⟩
    · omega
    · exact hedge rfl

/-- An automaton that walks from the left marker to the right one, and accepts when it is back on the
last cell. -/
def shuttle : Automaton where
  alphabet := .ofList ["1", "@", "$"]
  tapeAlphabet := .ofList ["1", "@", "$"]
  boundary := .markers "@" "$"
  start := "q0"
  finals := .ofList ["q1"]
  delta := .ofList [(Situation.mk "q0" "@", Move.mk "q0" "@" .right),
    (Situation.mk "q0" "1", Move.mk "q0" "1" .right),
    (Situation.mk "q0" "$", Move.mk "q1" "$" .left)]

/-- On the number two the shuttle makes four steps, and so does the derivation. -/
theorem shuttle_in_lockStep :
    Agrees (Grammar.ofAutomaton shuttle) none ["1", "1"] ∧
    ∃ d₀ d, Derivation.ofWord (Grammar.ofAutomaton shuttle) ["1", "1"] ⟨0, 0⟩ = .ok d₀ ∧
      Derivation.after? (Grammar.ofAutomaton shuttle) 4 d₀ = .ok (some d) ∧
      Derivation.step (Grammar.ofAutomaton shuttle) d = .ok none := by
  obtain ⟨hsteps, hagrees, -⟩ :=
    check_in_lockStep (a := shuttle) (by decide) rfl none ["1", "1"]
  refine ⟨hagrees (by decide), ?_⟩
  obtain ⟨d₀, hgenerated, hafter⟩ := hsteps (by decide) ⟨0, 0⟩
  have hhalt : (after? shuttle 4 (.ofWord shuttle ["1", "1"])).any
      (fun c => (c.step shuttle).1 = .halted) = true := by
    decide
  obtain ⟨c, hc, hhalted⟩ := (Option.any_eq_true _ _).mp hhalt
  obtain ⟨d, hd, -, -, hstep⟩ := hafter 4 c hc
  exact ⟨d₀, d, hgenerated, hd, hstep.mpr (of_decide_eq_true hhalted)⟩

end ContextSensitive

end TapeGrammar
