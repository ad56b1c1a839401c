import Mathlib.Tactic.NormNum.Prime
import TapeGrammar.Proofs.Agreement
import TapeGrammar.Proofs.ContextSensitive.Mirror
import TapeGrammar.Proofs.Primality.Machines
import TapeGrammar.Proofs.Room
import TapeGrammar.Proofs.Unrestricted.Mirror

/-!
# Runs and checks of the machines of the catalog

The head of a machine that decides primality never goes further than one cell beyond the number, and
the first padding of a derivation reaches at least that far.  So a check takes one attempt, however
long the run is.  What limits it is room: for the word and the plan, which depend on the number only, and
for the trace, which has a production for every step.
-/

namespace TapeGrammar

/-! ## 1. One attempt -/

/-- A Turing machine whose head stays beside the word has room in the first padding. -/
theorem Unrestricted.edge?_of_inside {a : Automaton} {word : Word} {c₀ : Configuration}
    (hinside : ∀ m c, Configuration.after? a m c₀ = some c → Inside 0 word.length c) {m : Nat}
    {c : Configuration} (hc : Configuration.after? a m c₀ = some c) :
    edge? a word ⟨1, word.length + 2⟩ c = none := by
  have hhead := hinside m c hc
  simp only [Inside] at hhead
  unfold edge?
  rw [if_neg (by simp only; omega), if_neg]
  rintro ⟨hfirst, hleft⟩
  -- the next move would lead past the cell before the word
  obtain ⟨move, hmove, hdirection⟩ := Option.map_eq_some_iff.mp hleft
  have hnext := (hinside (m + 1) _ (Configuration.after?_succ hc hmove)).1
  rw [Configuration.head_apply_left hdirection] at hnext
  simp only at hfirst
  omega

namespace Primality

variable {n : Nat}

/-- The machines take every number but zero. -/
theorem takes_word (kind : Kind) (hn : 1 ≤ n) : (machine kind).Takes (Unary.word n) := by
  have hdigit : Unary.digit ∈ (machine kind).inputs := by cases kind <;> decide +kernel
  refine ⟨?_, fun letter hletter => ?_⟩
  · rw [Unary.word, Ne, List.replicate_eq_nil_iff]
    omega
  · rwa [List.eq_of_mem_replicate hletter]

/-- **The check of a number ends with the verdict on the configuration in which the machine halts**, or
for want of room for the trace of that verdict. -/
theorem exists_trace_word (kind : Kind) (hn : 1 ≤ n) (hsize : n ≤ Unary.maxLength) {steps : Nat}
    {c : Configuration}
    (hc : Configuration.after? (machine kind) steps (.ofWord (machine kind) (Unary.word n)) = some c)
    (hhalt : c.pending? (machine kind) = none)
    (hinside : ∀ m c₁, Configuration.after? (machine kind) m
      (.ofWord (machine kind) (Unary.word n)) = some c₁ → Inside (origin kind) n c₁) :
    ∃ trace : Trace, steps + n ≤ trace.length ∧ trace.length ≤ steps + 6 * n + 14 ∧
      ∀ room, ∃ fuel, (Grammar.ofAutomaton (machine kind)).checkWithin room none fuel (Unary.word n) =
        some ((Verdict.ofHalt (machine kind) (Unary.word n) c trace).within room) := by
  have hlength := Unary.length_word n
  have hfits : (Unary.word n).length + 2 ≤ maxSize := by
    have hroom : Unary.maxLength + 2 ≤ maxSize := by decide
    omega
  have hallows : Configuration.Allows none steps := fun _ hlimit => nomatch hlimit
  have hword := takes_word kind hn
  have hwell := wellFormed_machine kind
  cases kind with
  | unbounded =>
    have L := Unrestricted.lockStep hwell rfl hword
    have htrace := L.exists_trace_of_room hwell hword hfits hc hhalt hallows fun m c₁ =>
      Unrestricted.edge?_of_inside (by rwa [hlength])
    rwa [hlength] at htrace
  | bounded =>
    have L := ContextSensitive.lockStep hwell rfl hword
    have htrace := L.exists_trace_of_room hwell hword hfits hc hhalt hallows fun _ _ _ => rfl
    rwa [hlength] at htrace

/-! ## 2. Deciding primality -/

/-- **The machines of the catalog decide whether a number is prime.**  Both of them halt on every number,
in a final state exactly if it is prime; and that is what the direct run says, if there is room for the
word and the number of steps fits 64 bits.  The check of their grammars comes to the same verdict, with
as many digits, on every number for which there is room: for the word, for the plan, and for the trace,
which has one production for each step, and between one and six for each digit.  Where there is a word
but no room for the rest the check ends in a fault. -/
theorem decides_primality (kind : Kind) :
    ∃ a, Catalog.automaton Catalog.primality kind = .ok a ∧ ∀ n, 1 ≤ n → ∃ c : Configuration,
      Configuration.after? a c.steps (.ofWord a (Unary.word n)) = some c ∧ c.pending? a = none ∧
      (a.isFinal c.state = true ↔ n.Prime) ∧
      (n ≤ Unary.maxLength → c.steps ≤ maxSize → ∃ outcome,
        a.RunsTo none (Unary.word n) (.ok outcome) ∧ outcome.steps = c.steps ∧
        (outcome.accepted = true ↔ n.Prime)) ∧
      (n ≤ Unary.maxLength → ∃ trace : Trace,
        c.steps + n ≤ trace.length ∧ trace.length ≤ c.steps + 6 * n + 14 ∧ ∃ fuel,
        (Grammar.ofAutomaton a).checkNumber none fuel n = some (
          if (Grammar.ofAutomaton a).hasRoom (Unary.word n) ∧ trace.length ≤ Room.maxTrace then
            .ok (if n.Prime then .accepted ⟨c.state, c.steps, trace⟩ (List.replicate n "1")
              else .rejected ⟨c.state, c.steps, trace⟩)
          else .error (.fault .noRoom))) := by
  refine ⟨machine kind, automaton_primality kind, fun n hn => ?_⟩
  obtain ⟨steps, c, hc, hhalt, hfinal, hinside⟩ := halts_machine kind hn
  obtain rfl : c.steps = steps := by
    rw [Configuration.steps_after? hc, Configuration.steps_ofWord, Nat.zero_add]
  refine ⟨c, hc, hhalt, hfinal, fun _ _ => ?_, fun hsize => ?_⟩
  · refine ⟨c.outcome (machine kind), (Automaton.runsTo_iff (takes_word kind hn)).mpr ⟨c, ?_⟩, rfl,
      hfinal⟩
    exact .halted c.steps c hc hhalt fun _ hlimit => nomatch hlimit
  · obtain ⟨trace, hle, hge, hwithin⟩ := exists_trace_word kind hn hsize hc hhalt hinside
    obtain ⟨fuel, hcheck⟩ := hwithin Room.maxTrace
    refine ⟨trace, hle, hge, fuel, ?_⟩
    cases hroom : (Grammar.ofAutomaton (machine kind)).hasRoom (Unary.word n) with
    | false =>
      simp only [Grammar.checkNumber, Unary.word?, if_pos hsize, hroom, Bool.false_eq_true, false_and,
        if_false]
    | true =>
      have hverdict : Verdict.ofHalt (machine kind) (Unary.word n) c trace =
          if n.Prime then .accepted ⟨c.state, c.steps, trace⟩ (List.replicate n "1")
          else .rejected ⟨c.state, c.steps, trace⟩ := by
        by_cases hprime : n.Prime
        · rw [Verdict.ofHalt, if_pos (hfinal.mpr hprime), if_pos hprime]
          rfl
        · rw [Verdict.ofHalt, if_neg (mt hfinal.mp hprime), if_neg hprime]
      rw [Grammar.checkNumber_eq hsize hroom, hcheck, Verdict.within, Verdict.trace_ofHalt, hverdict]
      simp only [true_and]

/-- The configuration in which a machine halts has made as many steps as the machine takes. -/
theorem steps_of_halted {kind : Kind} {steps : Nat} {c : Configuration}
    (hc : Configuration.after? (machine kind) c.steps (.ofWord (machine kind) (Unary.word n)) = some c)
    (hhalt : c.pending? (machine kind) = none)
    (h : (Configuration.after? (machine kind) steps (.ofWord (machine kind) (Unary.word n))).any
      (fun c => (c.pending? (machine kind)).isNone) = true) : c.steps = steps := by
  obtain ⟨c', hc', hhalt'⟩ := (Option.any_eq_true _ _).mp h
  exact Nat.le_antisymm (Configuration.le_of_halted hc' (Option.isNone_iff_eq_none.mp hhalt') hc)
    (Configuration.le_of_halted hc hhalt hc')

/-- The bounded automaton accepts five, after 140 steps, and rejects four, after 28. -/
theorem decides_five_four : ∃ a, Catalog.automaton Catalog.primality .bounded = .ok a ∧
    (∃ outcome, a.RunsTo none (Unary.word 5) (.ok outcome) ∧ outcome.steps = 140 ∧
      outcome.accepted = true) ∧
    (∃ fuel halt, (Grammar.ofAutomaton a).checkNumber none fuel 5 =
      some (.ok (.accepted halt (List.replicate 5 "1")))) ∧
    ∃ fuel halt, (Grammar.ofAutomaton a).checkNumber none fuel 4 = some (.ok (.rejected halt)) := by
  have hwords : ∀ n ≤ 5, n ≤ Unary.maxLength := fun n hn => hn.trans (by decide)
  have htraces : 140 + 6 * 5 + 14 ≤ Room.maxTrace := by decide
  obtain ⟨a, ha, hdecides⟩ := decides_primality .bounded
  obtain rfl : machine .bounded = a := Except.ok.inj ((automaton_primality .bounded).symm.trans ha)
  obtain ⟨c, hc, hhalt, -, hrun, hcheck⟩ := hdecides 5 (by decide)
  have hsteps : c.steps = 140 := steps_of_halted hc hhalt (by decide +kernel)
  obtain ⟨outcome, hrun, hcount, haccepted⟩ := hrun (hwords 5 (by decide)) (by rw [hsteps]; decide)
  obtain ⟨trace, -, hlength, fuel, hcheck⟩ := hcheck (hwords 5 (by decide))
  rw [if_pos ⟨by decide +kernel, by omega⟩, if_pos (by norm_num)] at hcheck
  obtain ⟨c', hc', hhalt', -, -, hcheck'⟩ := hdecides 4 (by decide)
  have hsteps' : c'.steps = 28 := steps_of_halted hc' hhalt' (by decide +kernel)
  obtain ⟨trace', -, hlength', fuel', hcheck'⟩ := hcheck' (hwords 4 (by decide))
  rw [if_pos ⟨by decide +kernel, by omega⟩, if_neg (by norm_num)] at hcheck'
  exact ⟨_, ha, ⟨outcome, hrun, hcount.trans hsteps, haccepted.mpr (by norm_num)⟩,
    ⟨fuel, _, hcheck⟩, fuel', _, hcheck'⟩

/-- The first number for whose word there is no room gets no verdict, whatever the fuel. -/
theorem no_verdict_beyond_maxLength :
    ∃ a, Catalog.automaton Catalog.primality .unbounded = .ok a ∧ ∀ fuel,
      (Grammar.ofAutomaton a).checkNumber none fuel 384307168202282326 =
        some (.error (.fault (.tooLong 384307168202282326))) := by
  refine ⟨machine .unbounded, automaton_primality .unbounded, fun fuel => ?_⟩
  have hlong : ¬ 384307168202282326 ≤ Unary.maxLength := by decide
  rw [Grammar.checkNumber, Unary.word?, if_neg hlong]

end Primality

end TapeGrammar
