import TapeGrammar.Automaton.Defect
import TapeGrammar.Proofs.Cleanup
import TapeGrammar.Proofs.Headroom
import TapeGrammar.Proofs.LockStep

/-!
# A check with a limit comes to an end

With a limit on the steps a check ends for every automaton, whether its parts fit together or not, and
without a fault (`check_endsWithin`).  Three loops have to end.

* The SIMULATION counts its steps.
* The ATTEMPTS double the padding only where it is no larger than the limit (`Grammar.Tried`), so what
  is left to double becomes less each time.
* The SCAN to the right makes the form that it scans longer, but not its bulk
  (`TapeGrammar.Proofs.Cleanup`).

The sizes that a check counts with stay within 64 bits if those of the word and the limit stay within
62.
-/

namespace TapeGrammar

open LockStep (Positive shortfall)

variable {a : Automaton} {g : Grammar} {word : Word} {k : Nat} {padding wider : Padding}
  {d : Derivation}

/-! ## 1. Attempts -/

namespace Derivation

/-- How an attempt at a word may go on: with a result that is no fault, or with twice the padding on a
side where it was no larger than the limit. -/
inductive Proceeds (k : Nat) (word : Word) (padding : Padding) :
    Round Padding (Except CheckError Derivation) → Prop where
  | ends (result : Except CheckError Derivation) (h : Faultless result) :
    Proceeds k word padding (.done result)
  | left (h : padding.left ≤ k) :
    Proceeds k word padding (.again { padding with left := 2 * padding.left })
  | right (h : padding.right + word.length ≤ k) :
    Proceeds k word padding (.again { padding with right := 2 * padding.right })

/-- Cells are missed by Turing machines only. -/
theorem exists_blank_of_missing {side : Direction}
    (h : missingSide? (Grammar.ofAutomaton a) d = some side) :
    ∃ blank, a.boundary = .blank blank := by
  obtain ⟨⟨blank, hblank⟩, -⟩ := missingSide?_eq_some h
  cases hb : a.boundary with
  | blank blank => exact ⟨blank, rfl⟩
  | markers left right =>
    rw [ContextSensitive.automaton_eq hb, Automaton.blank?, hb] at hblank
    cases hblank

/-- **One attempt with a limit ends**, and is followed by another one only if the padding on that side
is no larger than the limit. -/
theorem attempt_limited (a : Automaton) (word : Word) (hk : 2 * k ≤ maxSize)
    (hpos : Positive padding) :
    ∃ round, attempt (Grammar.ofAutomaton a) (some k) (k + 1) word padding = some round ∧
      Proceeds k word padding round := by
  have hofWord := ofWord_faultless (Grammar.ofAutomaton a) word padding
  cases hgenerated : ofWord (Grammar.ofAutomaton a) word padding with
  | error error =>
    rw [hgenerated] at hofWord
    exact ⟨.done (.error error), by simp only [attempt, hgenerated], .ends _ hofWord.error⟩
  | ok d₀ =>
    obtain ⟨result, hrun, hhalts⟩ :=
      toHalt_limited (Grammar.ofAutomaton a) k (replays_of_ofWord hgenerated).2
    cases hhalts with
    | exceeded =>
      exact ⟨.done (.error (.stepLimit k)), by simp only [attempt, hgenerated, hrun],
        .ends _ (faultless_stepLimit k)⟩
    | stuck d hd =>
      cases hmissing : missingSide? (Grammar.ofAutomaton a) d with
      | none =>
        exact ⟨.done (.ok d), by simp only [attempt, hgenerated, hrun, hmissing],
          .ends _ (faultless_ok d)⟩
      | some side =>
        obtain ⟨blank, hb⟩ := exists_blank_of_missing hmissing
        have hsteps := hd.2
        have hle : LockStep.paddingOn padding side ≤ k ∧
            Proceeds k word padding (.again (LockStep.doubled padding side)) := by
          rcases Unrestricted.padding_le_of_missing hb hgenerated hd.1 hmissing with
            ⟨rfl, hle⟩ | ⟨rfl, hle⟩
          · exact ⟨by simp only [LockStep.paddingOn]; omega, .left (by omega)⟩
          · exact ⟨by simp only [LockStep.paddingOn]; omega, .right (by omega)⟩
        have hdouble : padding.double side = .ok (LockStep.doubled padding side) :=
          (LockStep.double_eq hpos hle.1).resolve_right fun h => absurd h.2 (by omega)
        exact ⟨.again (LockStep.doubled padding side),
          by simp only [attempt, hgenerated, hrun, hmissing, hdouble], hle.2⟩

/-- Any fuel that is enough for an attempt leads to the same. -/
theorem proceeds_of_attempt (hk : 2 * k ≤ maxSize) (hpos : Positive padding) {fuel : Nat}
    {round : Round Padding (Except CheckError Derivation)}
    (h : attempt (Grammar.ofAutomaton a) (some k) fuel word padding = some round) :
    Proceeds k word padding round := by
  obtain ⟨round', hround', hproceeds⟩ := attempt_limited a word hk hpos
  have h₁ := attempt_of_le (Nat.le_max_left fuel (k + 1)) h
  have h₂ := attempt_of_le (Nat.le_max_right fuel (k + 1)) hround'
  rw [h₁] at h₂
  cases h₂
  exact hproceeds

/-- More padding is progress. -/
theorem Proceeds.shortfall_lt (hpos : Positive padding)
    (h : Proceeds k word padding (.again wider)) :
    Positive wider ∧ shortfall k wider < shortfall k padding := by
  cases h with
  | left hle =>
    have hside : LockStep.paddingOn padding .left ≤ k := hle
    exact ⟨hpos.doubled .left, LockStep.shortfall_doubled_lt hpos hside⟩
  | right hle =>
    have hside : LockStep.paddingOn padding .right ≤ k := Nat.le_trans (Nat.le_add_right _ _) hle
    exact ⟨hpos.doubled .right, LockStep.shortfall_doubled_lt hpos hside⟩

/-- **The attempts come to an end**, without a fault. -/
theorem attempts_limited (a : Automaton) (word : Word) (hk : 2 * k ≤ maxSize)
    (hpos : Positive padding) :
    ∃ more result, iterate (attempt (Grammar.ofAutomaton a) (some k) (k + 1) word) more padding =
      some result ∧ Faultless result := by
  refine ⟨shortfall k padding + 1, ?_⟩
  refine iterate_ends (I := Positive) (m := shortfall k) ?_ hpos (Nat.lt_succ_self _)
  intro padding hpos
  obtain ⟨round, hround, hproceeds⟩ := attempt_limited a word hk hpos
  cases round with
  | done result =>
    cases hproceeds with
    | ends _ hfaultless => exact Or.inl ⟨result, hround, hfaultless⟩
  | again wider =>
    obtain ⟨hpos', hlt⟩ := hproceeds.shortfall_lt hpos
    exact Or.inr ⟨wider, hround, hpos', hlt⟩

/-! ## 2. The conclusion -/

/-- **A conclusion is reached from every derivation**, without a fault. -/
theorem conclude_ends (a : Automaton) (word : Word) (d : Derivation) :
    ∃ fuel result, conclude (Grammar.ofAutomaton a) fuel word d = some result ∧
      Faultless result := by
  cases hstate : stateCarried (Grammar.ofAutomaton a) d with
  | error error =>
    refine ⟨0, .error error, by simp only [conclude, hstate], ?_⟩
    unfold stateCarried at hstate
    split at hstate
    · cases hstate
    · cases hstate
      exact faultless_violation _
  | ok state =>
    by_cases hfinal : (Grammar.ofAutomaton a).automaton.isFinal state = true
    · obtain ⟨fuel, result, hrecover, hfaultless⟩ := recoverWord_ends (recovers_ofAutomaton a) state d
      refine ⟨fuel, ?_⟩
      simp only [conclude, hstate, if_pos hfinal, hrecover]
      cases result with
      | error error => exact ⟨_, rfl, hfaultless.error⟩
      | ok t =>
        refine ⟨_, rfl, ?_⟩
        unfold accept
        split
        · exact faultless_violation _
        · split
          · exact faultless_violation _
          · exact faultless_ok _
    · exact ⟨0, .ok (.rejected ⟨state, d.steps, d.trace⟩),
        by simp only [conclude, hstate, if_neg hfinal], faultless_ok _⟩

end Derivation

/-! ## 3. The check -/

namespace Grammar

/-- The paddings that a check of a word with a limit tries. -/
inductive Tried (g : Grammar) (k : Nat) (word : Word) : Padding → Prop where
  | first {padding : Padding} (h : Padding.forLength word.length = .ok padding) :
    Tried g k word padding
  | again {padding wider : Padding} {fuel : Nat} (h : Tried g k word padding)
    (hagain : Derivation.attempt g (some k) fuel word padding = some (.again wider)) :
    Tried g k word wider

/-- What a check of a word that is limited to `k` steps keeps to. -/
structure EndsWithin (g : Grammar) (k : Nat) (word : Word) : Prop where
  /-- The check ends, and not with a fault. -/
  answers : ∃ result, g.Answers (some k) word result ∧ Faultless result
  /-- A side is widened only where the padding is no larger than the limit. -/
  widens : ∀ {padding wider fuel}, g.Tried k word padding →
    Derivation.attempt g (some k) fuel word padding = some (.again wider) →
      padding.left ≤ k ∧ wider = { padding with left := 2 * padding.left } ∨
      padding.right + word.length ≤ k ∧ wider = { padding with right := 2 * padding.right }
  /-- Every padding that is tried is the first one on a side, or at most twice the limit. -/
  padding_le : ∀ {padding}, g.Tried k word padding →
    padding.left ≤ max 1 (2 * k) ∧ padding.right ≤ max (word.length + 2) (2 * k)
  /-- Whatever a plan asks for can be made. -/
  planned : ∀ {padding p}, p ∈ (g.plan word padding).productions → p.Legal
  /-- The steps and the positions behind the cursor that are looked at are counted with 64 bits. -/
  counted : ∀ {padding d₀ n d}, g.Tried k word padding →
    Derivation.ofWord g word padding = .ok d₀ → n ≤ k + 1 →
    Derivation.after? g n d₀ = .ok (some d) → d.steps ≤ maxSize ∧ d.cursor + 2 ≤ maxSize
  /-- What is found in a form lies within it. -/
  replaced : ∀ {form left right : Form} {start}, form.find? left = some start →
    form.replace start left.length right = .ok (form.splice start left.length right)
  /-- Recovery ends, and not with a fault, whatever it begins with. -/
  recovers : ∀ state d, ∃ fuel result,
    Derivation.recoverWord g fuel state d = some result ∧ Faultless result

theorem Tried.positive (hk : 2 * k ≤ maxSize) (h : (ofAutomaton a).Tried k word padding) :
    Positive padding := by
  induction h with
  | first h =>
    rcases LockStep.forLength_cases word.length with hfit | ⟨hfault, -⟩
    · rw [hfit] at h
      cases h
      exact LockStep.positive_first word.length
    · rw [hfault] at h
      cases h
  | again _ hagain hpos => exact ((Derivation.proceeds_of_attempt hk hpos hagain).shortfall_lt hpos).1

/-- **Every padding that is tried is bounded** by the word and the limit. -/
theorem Tried.le (hk : 2 * k ≤ maxSize) (h : (ofAutomaton a).Tried k word padding) :
    padding.left ≤ max 1 (2 * k) ∧ padding.right ≤ max (word.length + 2) (2 * k) := by
  induction h with
  | first h =>
    rcases LockStep.forLength_cases word.length with hfit | ⟨hfault, -⟩
    · rw [hfit] at h
      cases h
      exact ⟨Nat.le_max_left _ _, Nat.le_max_left _ _⟩
    · rw [hfault] at h
      cases h
  | again htried hagain ih =>
    obtain ⟨hleft, hright⟩ := ih
    cases Derivation.proceeds_of_attempt hk (htried.positive hk) hagain with
    | left hle => exact ⟨by simp only; omega, hright⟩
    | right hle => exact ⟨hleft, by simp only; omega⟩

/-- A limited check of any word has an answer, and it is no fault. -/
theorem exists_answer (a : Automaton) (hk : 2 * k ≤ maxSize) (hword : word.length + 2 ≤ maxSize) :
    ∃ result, (ofAutomaton a).Answers (some k) word result ∧ Faultless result := by
  cases hnone : (ofAutomaton a).wordError? word with
  | some error =>
    exact ⟨.error error, ⟨0, by simp only [check, hnone]⟩, wordError?_faultless hnone⟩
  | none =>
    have hfit : Padding.forLength word.length = .ok ⟨1, word.length + 2⟩ :=
      (LockStep.forLength_cases word.length).resolve_right fun h => absurd h.2 (by omega)
    obtain ⟨more, settled, hloop, hfaultless⟩ :=
      Derivation.attempts_limited a word hk (LockStep.positive_first word.length)
    cases settled with
    | error error =>
      exact ⟨_, answers_of_attempts_error hnone hfit hloop, hfaultless.error⟩
    | ok d =>
      obtain ⟨fuel, result, hconclude, hfaultless'⟩ := Derivation.conclude_ends a word d
      exact ⟨result, answers_of_attempts hnone hfit hloop hconclude, hfaultless'⟩

end Grammar

/-- **A check that is limited to a number of steps comes to an end without a fault**, for every
automaton and every word. -/
theorem check_endsWithin (a : Automaton) (word : Word) (k : Nat)
    (hword : word.length < Nat.pow 2 62) (hk : k < Nat.pow 2 62) : (Grammar.ofAutomaton a).EndsWithin k word := by
  have hmax : maxSize = 18446744073709551615 := rfl
  have hlimit : Nat.pow 2 62 = 4611686018427387904 := rfl
  have hk' : 2 * k ≤ maxSize := by omega
  refine
    { answers := Grammar.exists_answer a hk' (by omega)
      widens := ?_
      padding_le := Grammar.Tried.le hk'
      planned := ?_
      counted := ?_
      replaced := Form.replace_of_find?
      recovers := Derivation.recoverWord_ends (recovers_ofAutomaton a) }
  · intro padding wider fuel htried hagain
    cases Derivation.proceeds_of_attempt hk' (htried.positive hk') hagain with
    | left hle => exact Or.inl ⟨hle, rfl⟩
    | right hle => exact Or.inr ⟨hle, rfl⟩
  · intro padding p hp
    obtain ⟨step, hstep, hmem⟩ := List.mem_flatMap.mp hp
    obtain ⟨-, rfl⟩ := List.mem_replicate.mp hmem
    exact ((Grammar.ofAutomaton a).legal_of_mem_plan word padding step hstep).production
  · intro padding d₀ n d htried hgenerated hn hafter
    obtain ⟨hwithin, hsteps⟩ :=
      Derivation.within_after? (Derivation.replays_of_ofWord hgenerated).2 hafter
    have hleft := (htried.le hk').1
    have hcursor := hwithin.cursor_le
    have hfirst : d₀.cursor ≤ padding.left := by
      rw [Derivation.cursor_of_ofWord hgenerated]
      unfold GrammarKind.firstCursor
      split <;> omega
    omega

/-- A machine that runs to the right forever, in a state by the name of a helper. -/
def runner : Automaton where
  alphabet := .ofList ["1"]
  tapeAlphabet := .ofList ["1", "B"]
  boundary := .blank "B"
  start := "A0"
  finals := ∅
  delta := .ofList [(Situation.mk "A0" "1", Move.mk "A0" "1" .right),
    (Situation.mk "A0" "B", Move.mk "A0" "B" .right)]

/-- The machine need not be well-formed, nor halt: after the cells have been doubled once, the check
ends at the limit. -/
theorem runner_endsWithin :
    ¬ runner.WellFormed ∧ ["1"].length < Nat.pow 2 62 ∧ 5 < Nat.pow 2 62 ∧
    (Grammar.ofAutomaton runner).EndsWithin 5 ["1"] ∧
    (Grammar.ofAutomaton runner).Answers (some 5) ["1"] (.error (.stepLimit 5)) :=
  ⟨by decide, by decide, by decide, check_endsWithin runner ["1"] 5 (by decide) (by decide),
    8, by decide⟩

end TapeGrammar
