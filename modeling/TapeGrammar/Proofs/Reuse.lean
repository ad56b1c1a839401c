import TapeGrammar.Proofs.Agreement
import TapeGrammar.Proofs.Simulator

/-!
# Using a simulator again

A simulator may have been left anywhere: with its head far to the left, with both arrays grown, in the
middle of a run that the limit has ended.  A call RESTARTS a simulator if what it answers, and what it
leaves behind, does not depend on that.  In a history, everything before a call that restarts can be left
out (`Simulator.calls?_of_restarts`).

To the machine on its tape, loading or running a word that the automaton takes is such a call.  Any other
word is refused, and leaves the machine as it was (`nothing_carried_over`).
-/

namespace TapeGrammar

/-! ## 1. Calls that restart a simulator -/

namespace Simulator

variable {σ : Type} {S : Simulator σ} {call : Call}

/-- A call that does the same whatever has been done before. -/
def Restarts (S : Simulator σ) (call : Call) : Prop :=
  ∀ fuel s s', S.call? fuel s call = S.call? fuel s' call

/-- A history in two parts: the second begins where the first has left the simulator. -/
theorem calls?_append (S : Simulator σ) (fuel : Nat) (history later : List Call) (s : σ) :
    S.calls? fuel (history ++ later) s = (S.calls? fuel history s).bind fun (answers, s') =>
      (S.calls? fuel later s').map (·.map (answers ++ ·) id) := by
  induction history generalizing s with
  | nil =>
    show _ = (S.calls? fuel later s).map id
    rw [Option.map_id, List.nil_append]
    rfl
  | cons call history ih =>
    simp only [List.cons_append, calls?, ih]
    cases S.call? fuel s call with
    | none => rfl
    | some out =>
      simp only [Option.bind_some]
      cases S.calls? fuel history out.2 with
      | none => rfl
      | some rest =>
        simp only [Option.map_some, Option.bind_some, Option.map_map]
        rfl

/-- **What comes before a call that restarts has no effect on what comes behind it.** -/
theorem calls?_of_restarts (h : S.Restarts call) (fuel : Nat) (later : List Call) (s s' : σ) :
    S.calls? fuel (call :: later) s = S.calls? fuel (call :: later) s' := by
  simp only [calls?, h fuel s s']

end Simulator

/-! ## 2. The machine on its tape -/

namespace Configuration

variable {a : Automaton} {word : Word} {limit : Option Nat} {error : RunError}

/-- A word that the automaton takes is put on a new tape. -/
theorem load_of_takes (hword : a.Takes word) (c : Configuration) :
    c.load a word = (.ok (), ofWord a word) := by
  simp only [load, wordError?_eq_none_iff.mpr hword]

/-- Running it does not depend on where the machine has been left. -/
theorem run_of_takes (hword : a.Takes word) (limit : Option Nat) (fuel : Nat) (c : Configuration) :
    c.run a limit fuel word = (ofWord a word).toHalt a limit fuel := by
  simp only [run, load_of_takes hword]

/-- A word that is refused changes nothing. -/
theorem load_of_wordError? (h : wordError? a word = some error) (c : Configuration) :
    c.load a word = (.error error, c) := by
  simp only [load, h]

theorem run_of_wordError? (h : wordError? a word = some error) (limit : Option Nat) (fuel : Nat)
    (c : Configuration) : c.run a limit fuel word = some (.error error, c) := by
  simp only [run, load_of_wordError? h]

end Configuration

namespace Simulator

variable {a : Automaton} {word : Word}

theorem restarts_load (hword : a.Takes word) (limit : Option Nat) :
    (arrays a limit).Restarts (.load word) := by
  intro fuel c c'
  simp only [call?, arrays, Configuration.load_of_takes hword]

theorem restarts_run (hword : a.Takes word) (limit : Option Nat) :
    (arrays a limit).Restarts (.run word) := by
  intro fuel c c'
  simp only [call?, arrays, Configuration.run_of_takes hword]

end Simulator

/-! ## 3. Every history -/

/-- **A simulator carries nothing over.**  Whatever a simulator has been used for, a word that the
automaton takes is run as on a fresh simulator with the same limit: with the same result, and leaving the
same state, head, tape and number of steps; and from such a word on, loaded or run, all calls are answered
as if the simulator had been fresh.  A word that the automaton does not take is refused as invalid, by
loading it and by running it, and leaves everything as it was. -/
theorem nothing_carried_over {a : Automaton} {limit : Option Nat} {fuel : Nat} {history : List Call}
    {answers : List Answer} {c : Configuration}
    (h : (Simulator.arrays a limit).calls? fuel history (.initial a) = some (answers, c)) (word : Word) :
    (a.Takes word →
      (∀ more, c.run a limit more word = (Configuration.initial a).run a limit more word) ∧
      ∀ call ∈ [Call.load word, Call.run word], ∀ later,
        (Simulator.arrays a limit).calls? fuel (history ++ call :: later) (.initial a) =
          ((Simulator.arrays a limit).calls? fuel (call :: later) (.initial a)).map
            (·.map (answers ++ ·) id)) ∧
    (¬ a.Takes word → ∃ error, error.isInvalidWord = true ∧ c.load a word = (.error error, c) ∧
      ∀ more, c.run a limit more word = some (.error error, c)) := by
  constructor
  · intro hword
    have hrestarts : ∀ call ∈ [Call.load word, Call.run word],
        (Simulator.arrays a limit).Restarts call := by
      intro call hcall
      rcases List.mem_pair.mp hcall with rfl | rfl
      · exact Simulator.restarts_load hword limit
      · exact Simulator.restarts_run hword limit
    refine ⟨fun more => ?_, fun call hcall later => ?_⟩
    · rw [Configuration.run_of_takes hword, Configuration.run_of_takes hword]
    · rw [Simulator.calls?_append, h, Option.bind_some]
      simp only
      rw [Simulator.calls?_of_restarts (hrestarts call hcall) fuel later c (.initial a)]
  · intro hword
    obtain ⟨error, herror⟩ : ∃ error, Configuration.wordError? a word = some error :=
      Option.ne_none_iff_exists'.mp fun hnone => hword (Configuration.wordError?_eq_none_iff.mp hnone)
    exact ⟨error, Configuration.isInvalidWord_of_wordError? herror,
      Configuration.load_of_wordError? herror c,
      fun more => Configuration.run_of_wordError? herror limit more c⟩

/-- A Turing machine that halts on the number one, and on all others goes to the left for ever, writing a
1 wherever it comes. -/
def strayer : Automaton where
  alphabet := .ofList ["1"]
  tapeAlphabet := .ofList ["1", "B"]
  boundary := .blank "B"
  start := "q0"
  finals := .ofList ["q1"]
  delta := .ofList [(Situation.mk "q0" "1", Move.mk "q1" "1" .right),
    (Situation.mk "q1" "1", Move.mk "q2" "1" .left), (Situation.mk "q2" "1", Move.mk "q2" "1" .left),
    (Situation.mk "q2" "B", Move.mk "q2" "1" .left)]

/-- The limit ends the run of the strayer on the number two, and then it makes one more step, so that its
head is at -3 with two cells written left of 0.  It refuses the empty word there, and runs the number one
as if it had never been used. -/
theorem strayer_carries_nothing_over :
    (Simulator.arrays strayer (some 3)).calls? 9 [.run ["1", "1"], .step] (.initial strayer) =
      some ([.ran (.error (.stepLimit 3)), .stepped .moved],
        ⟨"q2", ⟨#["1", "1"], #["1", "1"]⟩, -3, 5⟩) ∧
    strayer.Takes ["1"] ∧
    (Configuration.mk "q2" ⟨#["1", "1"], #["1", "1"]⟩ (-3) 5).run strayer (some 3) 9 ["1"] =
      some (.ok ⟨"q1", 1, true⟩, ⟨"q1", ⟨#["1"], #[]⟩, 1, 1⟩) ∧
    ¬ strayer.Takes [] ∧ ∃ error, error.isInvalidWord = true ∧
      (Configuration.mk "q2" ⟨#["1", "1"], #["1", "1"]⟩ (-3) 5).load strayer [] =
        (.error error, ⟨"q2", ⟨#["1", "1"], #["1", "1"]⟩, -3, 5⟩) := by
  have hused : (Simulator.arrays strayer (some 3)).calls? 9 [.run ["1", "1"], .step]
      (.initial strayer) = some ([.ran (.error (.stepLimit 3)), .stepped .moved],
        ⟨"q2", ⟨#["1", "1"], #["1", "1"]⟩, -3, 5⟩) := by decide
  have htakes : strayer.Takes ["1"] := by decide
  have hrefuses : ¬ strayer.Takes [] := by decide
  have hfresh : (Configuration.initial strayer).run strayer (some 3) 9 ["1"] =
      some (.ok ⟨"q1", 1, true⟩, ⟨"q1", ⟨#["1"], #[]⟩, 1, 1⟩) := by decide
  obtain ⟨error, hinvalid, hload, -⟩ := (nothing_carried_over hused []).2 hrefuses
  exact ⟨hused, htakes, (((nothing_carried_over hused ["1"]).1 htakes).1 9).trans hfresh, hrefuses,
    error, hinvalid, hload⟩

end TapeGrammar
