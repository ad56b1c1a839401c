import TapeGrammar.Automaton.Defect
import TapeGrammar.Proofs.Fuel
import TapeGrammar.Proofs.Phases
import TapeGrammar.Proofs.Window

/-!
# The trace of a verdict

The trace that a verdict carries is that of the last attempt at the word, and it is a derivation: it
falls into three stretches, one for each table, and can be replayed from the start symbol
(`trace_replays`).  That holds of every automaton, whether its parts fit together or not.  Where they
do not, a production that is looked up around the cursor may replace another occurrence further to
the left, or one of several alternatives; the trace shows what has been applied, and a replay applies
the same.
-/

namespace TapeGrammar

namespace Derivation

variable {g : Grammar} {d d' : Derivation} {limit : Option Nat} {fuel : Nat} {word : Word}

/-! ## 1. Simulation -/

/-- What is applied at a site is one transition production, and counts as one step. -/
theorem replays_of_stepAt {site : Site} (h : stepAt g d site = .ok (some d')) :
    ∃ p, Replays (· ∈ g.transition) d.traced [p] d'.traced ∧ d'.steps = d.steps + 1 := by
  unfold stepAt at h
  split at h
  · cases h
  · split at h
    · cases h
    · rename_i right hfirst
      split at h
      · cases h
      · rename_i traced htraced
        cases h
        exact ⟨_, .single (Productions.mem_of_first? hfirst) htraced, rfl⟩
      · cases h

theorem replays_of_stepAmong {sites : List Site} (h : stepAmong g d sites = .ok (some d')) :
    ∃ p, Replays (· ∈ g.transition) d.traced [p] d'.traced ∧ d'.steps = d.steps + 1 := by
  obtain ⟨site, -, hsite⟩ := exists_site_of_stepAmong h
  exact replays_of_stepAt hsite

/-- **As many transition productions are applied as steps are counted.** -/
theorem replays_of_toHalt (h : toHalt g limit fuel d = some (.ok d')) :
    ∃ moves, Replays (· ∈ g.transition) d.traced moves d'.traced ∧
      d'.steps = d.steps + moves.length := by
  let Reached : Derivation → Prop := fun s =>
    ∃ moves, Replays (· ∈ g.transition) d.traced moves s.traced ∧ s.steps = d.steps + moves.length
  refine iterate_invariant (I := Reached) (P := fun out => ∀ s, out = .ok s → Reached s)
    ?_ ?_ ⟨[], .refl _, rfl⟩ h d' rfl
  · rintro s next ⟨moves, hs, hsteps⟩ hround
    simp only [stepRound, Option.some.injEq] at hround
    split at hround
    · cases hround
    · cases hround
    · rename_i s' hstep
      split at hround
      · cases hround
      · cases hround
        obtain ⟨p, hp, hstep'⟩ := replays_of_stepAmong hstep
        refine ⟨moves ++ [p], hs.append hp, ?_⟩
        rw [hstep', hsteps, List.length_append, List.length_singleton, Nat.add_assoc]
  · rintro s out hs hround s' rfl
    simp only [stepRound, Option.some.injEq] at hround
    split at hround
    · cases hround
    · cases hround
      exact hs
    · split at hround <;> cases hround

/-! ## 2. Attempts -/

/-- **Nothing is kept of an attempt that is made again**: the derivation that the attempts end with
is generated from the start symbol, with one of the paddings that are tried, and simulated from
there. -/
theorem exists_of_attempts_among {I : Padding → Prop} {more : Nat} {padding : Padding}
    (hagain : ∀ padding wider, I padding →
      attempt g limit fuel word padding = some (.again wider) → I wider) (hfirst : I padding)
    (h : iterate (attempt g limit fuel word) more padding = some (.ok d)) :
    ∃ padding generated, I padding ∧ ofWord g word padding = .ok generated ∧
      toHalt g limit fuel generated = some (.ok d) := by
  refine iterate_invariant (I := I)
    (P := fun out => ∀ d, out = .ok d → ∃ padding generated, I padding ∧
      ofWord g word padding = .ok generated ∧ toHalt g limit fuel generated = some (.ok d))
    hagain ?_ hfirst h d rfl
  rintro padding out hpadding hround d rfl
  unfold attempt at hround
  split at hround
  · cases hround
  · rename_i generated hgenerated
    split at hround
    · cases hround
    · cases hround
    · rename_i halted hhalted
      split at hround
      · cases hround
        exact ⟨padding, generated, hpadding, hgenerated, hhalted⟩
      · split at hround <;> cases hround

theorem exists_of_attempts {more : Nat} {padding : Padding}
    (h : iterate (attempt g limit fuel word) more padding = some (.ok d)) :
    ∃ padding generated, ofWord g word padding = .ok generated ∧
      toHalt g limit fuel generated = some (.ok d) := by
  obtain ⟨padding, generated, -, hgenerated, hhalted⟩ :=
    exists_of_attempts_among (I := fun _ => True) (fun _ _ _ _ => trivial) trivial h
  exact ⟨padding, generated, hgenerated, hhalted⟩

/-- What the attempts end with replays the plan for the word and then one transition production for
each step. -/
theorem replays_of_attempts {more : Nat} {padding : Padding}
    (h : iterate (attempt g limit fuel word) more padding = some (.ok d)) :
    ∃ padding between moves,
      Replays (· ∈ g.generation) (.ofForm [g.start]) (g.plan word padding).productions between ∧
        Replays (· ∈ g.transition) between moves d.traced ∧ moves.length = d.steps := by
  obtain ⟨padding, generated, hgenerated, hhalted⟩ := exists_of_attempts h
  obtain ⟨hplan, hzero⟩ := replays_of_ofWord hgenerated
  obtain ⟨moves, hmoves, hsteps⟩ := replays_of_toHalt hhalted
  exact ⟨padding, generated.traced, moves, hplan, hmoves, by omega⟩

/-! ## 3. Conclusions -/

/-- A form of letters is made of the letters that are read off it. -/
theorem eq_map_of_isTerminal {form : Form} (h : form.isTerminal = true) :
    form = form.letters.map .terminal :=
  Reading.eq_of_isTerminal ⟨Symbol.letter?, fun _ => rfl⟩ h

/-- What a verdict says about a derivation whose simulation has ended: where it has ended, and, if
the state there is final, that the word has been recovered from it. -/
theorem replays_of_conclude {verdict : Verdict} (h : conclude g fuel word d = some (.ok verdict)) :
    ∃ recovered last, Replays (· ∈ g.recovery) d.traced recovered last ∧
      last.trace = verdict.halt.trace ∧ verdict.halt.steps = d.steps ∧
      (g.automaton.isFinal verdict.halt.state = true ↔ verdict.isAccepted = true) ∧
      (verdict.isAccepted = true → last.form = word.map .terminal) ∧
      (verdict.isAccepted = false → recovered = []) := by
  unfold conclude at h
  split at h
  · cases h
  · rename_i state hstate
    split at h
    · rename_i hfinal
      split at h
      · cases h
      · cases h
      · rename_i last hlast
        obtain ⟨recovered, hrecovered⟩ := replays_of_recoverWord hlast
        unfold accept at h
        split at h
        · cases h
        · rename_i hterminal
          split at h
          · cases h
          · rename_i hletters
            cases h
            refine ⟨recovered, last, hrecovered, rfl, rfl, iff_of_true hfinal rfl, fun _ => ?_, ?_⟩
            · exact (eq_map_of_isTerminal (by simpa using hterminal)).trans
                (congrArg (List.map Symbol.terminal) (Classical.not_not.mp hletters))
            · intro hnot
              cases hnot
    · rename_i hfinal
      cases h
      refine ⟨[], d.traced, .refl _, rfl, rfl, iff_of_false hfinal Bool.false_ne_true, ?_,
        fun _ => rfl⟩
      intro haccepted
      cases haccepted

end Derivation

/-! ## 4. Verdicts -/

/-- The grammar of an automaton keeps the automaton. -/
theorem Grammar.automaton_ofAutomaton (a : Automaton) : (Grammar.ofAutomaton a).automaton = a := by
  unfold Grammar.ofAutomaton
  split <;> rfl

/-- **Every trace is a derivation.**  Whatever the automaton, the trace of a verdict consists of the
plan for the word with some padding, then one transition production for each step that is reported,
then recovery productions, of which there are none if the word is rejected; all are in their tables.
Replayed from the start symbol every one of them applies, and if the word is accepted its letters
are left.  It is accepted exactly if the reported state is final. -/
theorem trace_replays (a : Automaton) (limit : Option Nat) (word : Word) (verdict : Verdict)
    (h : (Grammar.ofAutomaton a).Answers limit word (.ok verdict)) :
    ∃ padding moves recovered last,
      verdict.halt.trace.steps =
        ((Grammar.ofAutomaton a).plan word padding).productions ++ moves ++ recovered ∧
      (∀ p ∈ ((Grammar.ofAutomaton a).plan word padding).productions,
        p ∈ (Grammar.ofAutomaton a).generation) ∧
      (∀ p ∈ moves, p ∈ (Grammar.ofAutomaton a).transition) ∧
      moves.length = verdict.halt.steps ∧
      (∀ p ∈ recovered, p ∈ (Grammar.ofAutomaton a).recovery) ∧
      (verdict.isAccepted = false → recovered = []) ∧
      TracedForm.replay verdict.halt.trace.steps (.ofForm [(Grammar.ofAutomaton a).start]) =
        some last ∧
      (verdict.isAccepted = true → last.form = word.map .terminal) ∧
      (a.isFinal verdict.halt.state = true ↔ verdict.isAccepted = true) := by
  obtain ⟨fuel, h⟩ := h
  have hauto := Grammar.automaton_ofAutomaton a
  generalize Grammar.ofAutomaton a = g at h hauto ⊢
  subst hauto
  unfold Grammar.check at h
  split at h
  · cases h
  · split at h
    · cases h
    · split at h
      · cases h
      · cases h
      · rename_i d hd
        obtain ⟨padding, between, moves, hplan, hmoves, hcount⟩ :=
          Derivation.replays_of_attempts hd
        obtain ⟨recovered, last, hrecovered, htrace, hsteps, hfinal, hletters, hnone⟩ :=
          Derivation.replays_of_conclude h
        -- what the three stretches have written down is the trace of the verdict
        have hall : verdict.halt.trace.steps =
            (g.plan word padding).productions ++ moves ++ recovered := by
          rw [← htrace, hrecovered.steps_eq, hmoves.steps_eq, hplan.steps_eq]
          rfl
        refine ⟨padding, moves, recovered, last, hall, hplan.allowed_of_mem,
          hmoves.allowed_of_mem, hcount.trans hsteps.symm, hrecovered.allowed_of_mem, hnone, ?_,
          hletters, hfinal⟩
        rw [hall, TracedForm.replay_append, TracedForm.replay_append, hplan.replay_eq,
          Option.bind_some, hmoves.replay_eq, Option.bind_some, hrecovered.replay_eq]

/-- A machine that makes one move, out of a state that bears the name of a letter. -/
def impostor : Automaton where
  alphabet := .ofList ["1"]
  tapeAlphabet := .ofList ["1", "B"]
  boundary := .blank "B"
  start := "1"
  finals := .ofList ["2"]
  delta := .ofList [(Situation.mk "1" "1", Move.mk "2" "B" .right)]

/-- The parts of the impostor do not fit together, but its trace for the number two has a transition
production for its move and ends with the letters of the word. -/
theorem impostor_trace_replays : ¬ impostor.WellFormed ∧ ∃ verdict padding p recovered last,
    (Grammar.ofAutomaton impostor).Answers none ["1", "1"] (.ok verdict) ∧
      verdict.halt.trace.steps =
        ((Grammar.ofAutomaton impostor).plan ["1", "1"] padding).productions ++ [p] ++ recovered ∧
      p ∈ (Grammar.ofAutomaton impostor).transition ∧
      TracedForm.replay verdict.halt.trace.steps (.ofForm [(Grammar.ofAutomaton impostor).start]) =
        some last ∧ last.form = [.terminal "1", .terminal "1"] := by
  have haccepted : ((Grammar.ofAutomaton impostor).check none 30 ["1", "1"]).any
      (fun result => match result with
        | .ok verdict => verdict.isAccepted && verdict.halt.steps = 1
        | .error _ => false) = true := by
    decide
  obtain ⟨result, hcheck, haccepted⟩ := (Option.any_eq_true _ _).mp haccepted
  cases result with
  | error error => cases haccepted
  | ok verdict =>
    simp only [Bool.and_eq_true, decide_eq_true_eq] at haccepted
    obtain ⟨padding, moves, recovered, last, hsteps, -, hmoves, hlength, -, -, hreplay, hletters, -⟩ :=
      trace_replays impostor none ["1", "1"] verdict ⟨30, hcheck⟩
    obtain ⟨p, rfl⟩ := List.length_eq_one_iff.mp (hlength.trans haccepted.2)
    exact ⟨by decide, verdict, padding, p, recovered, last, ⟨30, hcheck⟩, hsteps,
      hmoves p (List.mem_singleton_self p), hreplay, hletters haccepted.1⟩

end TapeGrammar
