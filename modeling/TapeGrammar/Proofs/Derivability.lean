import TapeGrammar.Proofs.Agreement
import TapeGrammar.Proofs.ContextSensitive.Language
import TapeGrammar.Proofs.Unrestricted.Language

/-!
# Verdicts and derivability

A check makes one derivation, and its verdict is about the state in which that derivation halts.  The
grammar is not bound to it: recovery may begin in any final state, also in one that the machine
leaves again.  So an accepted word is always generated, but a rejected one need not be out of the
language.  It is if the run has not been in a final state before, as with an automaton that makes no
move in a final state (`accepted_iff_generates_of_halting`).
-/

namespace TapeGrammar

open TapeGrammar.Configuration (after? PassesFinal)

variable {a : Automaton} {word : Word} {limit : Option Nat} {verdict : Verdict}

/-! ## 1. Both kinds of grammars -/

/-- **The grammar of a well-formed automaton generates the words on which the automaton passes a final
state**, whatever its kind. -/
theorem Grammar.generates_iff (ha : a.WellFormed) (hword : a.Takes word) :
    (Grammar.ofAutomaton a).Generates word ↔ PassesFinal a (.ofWord a word) := by
  cases hboundary : a.boundary with
  | blank blank =>
    constructor
    · exact Unrestricted.passesFinal_of_generates ha hboundary
    · exact Unrestricted.generates_of_passesFinal ha hboundary hword.2
  | markers left right =>
    constructor
    · exact ContextSensitive.passesFinal_of_generates ha hboundary
    · exact ContextSensitive.generates_of_passesFinal ha hboundary hword

/-- A verdict is about a configuration in which the automaton has halted. -/
theorem Grammar.Answers.halted (ha : a.WellFormed) (hword : a.Takes word)
    (h : (Grammar.ofAutomaton a).Answers limit word (.ok verdict)) :
    ∃ n c, after? a n (.ofWord a word) = some c ∧ c.pending? a = none ∧
      verdict.Reports word (c.outcome a) := by
  obtain ⟨Mirrors, edge?, L⟩ : ∃ Mirrors edge?,
      LockStep a (Grammar.ofAutomaton a) word Mirrors edge? := by
    cases hboundary : a.boundary with
    | blank blank => exact ⟨_, _, Unrestricted.lockStep ha hboundary hword⟩
    | markers left right => exact ⟨_, _, ContextSensitive.lockStep ha hboundary hword⟩
  cases L.concludes_of_answers hword h with
  | halted n c trace hc hallows hhalt =>
    exact ⟨n, c, hc, hhalt, Verdict.reports_ofHalt a word c trace⟩

/-! ## 2. Verdicts -/

/-- **An accepted word is generated.** -/
theorem Grammar.Answers.generates (ha : a.WellFormed) (hword : a.Takes word)
    (h : (Grammar.ofAutomaton a).Answers limit word (.ok verdict))
    (haccepted : verdict.isAccepted = true) : (Grammar.ofAutomaton a).Generates word := by
  obtain ⟨n, c, hc, -, hreports⟩ := h.halted ha hword
  have hfinal : a.isFinal c.state = true := hreports.accepted_iff.symm.trans haccepted
  exact (Grammar.generates_iff ha hword).mpr ⟨n, c, hc, hfinal⟩

/-- **When the verdict of a check is derivability.**  The letters of a word can be derived if the word
is accepted.  The converse holds exactly if the check ends in a final state, or if no configuration
that the run passes is in one: what the check does not see is a final state that the automaton has
left again. -/
theorem accepted_iff_generates_iff (ha : a.WellFormed) (hword : a.Takes word)
    (h : (Grammar.ofAutomaton a).Answers none word (.ok verdict)) :
    (verdict.isAccepted = true → (Grammar.ofAutomaton a).Generates word) ∧
    ((verdict.isAccepted = true ↔ (Grammar.ofAutomaton a).Generates word) ↔
      (a.isFinal verdict.halt.state = true ∨
        ∀ n c, after? a n (.ofWord a word) = some c → a.isFinal c.state = false)) := by
  obtain ⟨n, c, hc, -, hreports⟩ := h.halted ha hword
  have haccepted : verdict.isAccepted = a.isFinal verdict.halt.state :=
    hreports.accepted_iff.trans (congrArg a.isFinal hreports.state_eq.symm)
  refine ⟨h.generates ha hword, ?_⟩
  rw [haccepted]
  constructor
  · intro hiff
    by_cases hfinal : a.isFinal verdict.halt.state = true
    · exact Or.inl hfinal
    · refine Or.inr fun m c' hc' => ?_
      have hnone := (Grammar.generates_iff ha hword).not.mp (hiff.not.mp hfinal)
      cases hstate : a.isFinal c'.state with
      | false => rfl
      | true => exact absurd ⟨m, c', hc', hstate⟩ hnone
  · rintro (hfinal | hnone)
    · have haccept : verdict.isAccepted = true := haccepted.trans hfinal
      exact iff_of_true hfinal (h.generates ha hword haccept)
    · have hstate : a.isFinal verdict.halt.state = false := by
        rw [hreports.state_eq]
        exact hnone n c hc
      refine iff_of_false (by simp [hstate]) fun hgenerates => ?_
      obtain ⟨m, c', hc', hfinal⟩ := (Grammar.generates_iff ha hword).mp hgenerates
      rw [hnone m c' hc'] at hfinal
      cases hfinal

/-- **A check decides derivability where the automaton halts in its final states.** -/
theorem accepted_iff_generates_of_halting (ha : a.WellFormed) (hword : a.Takes word)
    (hhalting : ∀ q x, a.isFinal q = true → a.move? q x = none)
    (h : (Grammar.ofAutomaton a).Answers limit word (.ok verdict)) :
    verdict.isAccepted = true ↔ (Grammar.ofAutomaton a).Generates word := by
  refine ⟨h.generates ha hword, fun hgenerates => ?_⟩
  obtain ⟨n, c, hc, hhalt, hreports⟩ := h.halted ha hword
  obtain ⟨m, c', hc', hfinal⟩ := (Grammar.generates_iff ha hword).mp hgenerates
  have hhalt' : c'.pending? a = none := by
    refine Option.bind_eq_none_iff.mpr fun x _ => hhalting c'.state x hfinal
  -- both configurations are the one in which the run ends
  have hle := Configuration.le_of_halted hc hhalt hc'
  have hge := Configuration.le_of_halted hc' hhalt' hc
  obtain rfl : m = n := Nat.le_antisymm hle hge
  obtain rfl : c' = c := Option.some.inj (hc'.symm.trans hc)
  exact hreports.accepted_iff.trans hfinal

/-- The walker halts in its final state. -/
theorem walker_decides_one : ∃ verdict,
    (Grammar.ofAutomaton Unrestricted.walker).Answers none ["1"] (.ok verdict) ∧
      (verdict.isAccepted = true ↔ (Grammar.ofAutomaton Unrestricted.walker).Generates ["1"]) := by
  have hchecked : ((Grammar.ofAutomaton Unrestricted.walker).check none 20 ["1"]).any
      (fun result => match result with
        | .ok verdict => Unrestricted.walker.isFinal verdict.halt.state
        | .error _ => false) = true := by
    decide
  obtain ⟨result, hcheck, hfinal⟩ := (Option.any_eq_true _ _).mp hchecked
  cases result with
  | error error => cases hfinal
  | ok verdict =>
    have hanswers : (Grammar.ofAutomaton Unrestricted.walker).Answers none ["1"] (.ok verdict) :=
      ⟨20, hcheck⟩
    have hexact := (accepted_iff_generates_iff (a := Unrestricted.walker) (by decide) (by decide)
      hanswers).2
    exact ⟨verdict, hanswers, hexact.mpr (Or.inl hfinal)⟩

/-- A machine that begins in its final state, and leaves it with the only move that it has. -/
def leaver : Automaton where
  alphabet := .ofList ["1"]
  tapeAlphabet := .ofList ["1", "B"]
  boundary := .blank "B"
  start := "q0"
  finals := .ofList ["q0"]
  delta := .ofList [(Situation.mk "q0" "1", Move.mk "q1" "1" .right)]

/-- The grammar of the leaver generates the number one, and the check rejects it. -/
theorem leaver_rejects_one : leaver.WellFormed ∧ leaver.Takes ["1"] ∧
    (Grammar.ofAutomaton leaver).Generates ["1"] ∧
    ∃ verdict, (Grammar.ofAutomaton leaver).Answers none ["1"] (.ok verdict) ∧
      verdict.isAccepted = false := by
  have hformed : leaver.WellFormed := by decide
  have hword : leaver.Takes ["1"] := by decide
  have hrejected : ((Grammar.ofAutomaton leaver).check none 20 ["1"]).any
      (fun result => match result with
        | .ok verdict => !verdict.isAccepted
        | .error _ => false) = true := by
    decide
  refine ⟨hformed, hword, ?_, ?_⟩
  · exact (Grammar.generates_iff hformed hword).mpr ⟨0, .ofWord leaver ["1"], rfl, by decide⟩
  · obtain ⟨result, hcheck, hnot⟩ := (Option.any_eq_true _ _).mp hrejected
    cases result with
    | error error => cases hnot
    | ok verdict => exact ⟨verdict, ⟨20, hcheck⟩, by simpa using hnot⟩

end TapeGrammar
