import TapeGrammar.Proofs.Confined
import TapeGrammar.Proofs.Counting

/-!
# Checks that have room

How long the lists of a check become is bounded by the word and by the number of moves that the machine
makes within the limit.  The longest of these lists is the trace: the form is never longer
(`length_form_le_trace`), and the plan is as long as what generation adds to the trace.  The length of
the trace is that of the plan, and one production for each step and each production of recovery.  The
padding of the attempt counts in the first and the last, and no padding is tried that is more than twice
the number of moves (`LockStep.Moderate`).

A check that is small in this sense has room for everything, so it does the same in memory
(`checkNumber_eq_check`).  Where the first padding is enough, it depends on nothing but the length of the
trace whether there is room for it (`LockStep.exists_trace_of_room`).
-/

namespace TapeGrammar

open TapeGrammar.Configuration (after? Allows)
open LockStep (Positive paddingOn doubled)

variable {a : Automaton} {g : Grammar} {word : Word} {padding : Padding} {limit : Option Nat}
  {d d₀ : Derivation} {t t' : TracedForm} {productions : List Production} {fuel room m n : Nat}

/-! ## 1. Forms -/

/-- Productions that make a form longer by one symbol at most. -/
theorem Replays.length_form_le {allowed : Production → Prop}
    (hgrows : ∀ p, allowed p → p.right.length ≤ p.left.length + 1)
    (h : Replays allowed t productions t') :
    t'.form.length + t.trace.length ≤ t.form.length + t'.trace.length := by
  have hweigh := h.weigh_eq fun _ => 1
  have hright : weigh (fun p : Production => p.right.length) productions ≤
      weigh (fun p : Production => p.left.length) productions + productions.length := by
    rw [← weigh_succ]
    exact weigh_le fun p hp => hgrows p (h.allowed_of_mem p hp)
  have htrace : t'.trace.length = t.trace.length + productions.length := by
    rw [← Trace.length_steps, h.steps_eq, List.length_append, Trace.length_steps]
  simp only [weigh_const, Nat.mul_one] at hweigh
  omega

/-- Simulation and recovery make a form longer by one symbol at most with each production. -/
theorem length_right_le (ha : a.WellFormed) {p : Production}
    (hp : p ∈ (Grammar.ofAutomaton a).transition ∨ p ∈ (Grammar.ofAutomaton a).recovery) :
    p.right.length ≤ p.left.length + 1 := by
  cases hboundary : a.boundary with
  | blank blank =>
    rcases hp with hp | hp
    · rw [Unrestricted.length_transition ((Unrestricted.mem_transition hboundary).mp hp)]
      exact Nat.le_succ _
    · obtain ⟨q, -, rfl | ⟨origin, -, symbol, -, rfl | rfl⟩⟩ :=
        Unrestricted.mem_recovery_iff.mp ((Unrestricted.mem_recovery hboundary).mp hp)
      · exact Nat.zero_le _
      all_goals
        unfold Unrestricted.passed
        split <;> simp
  | markers left right =>
    rcases hp with hp | hp
    · obtain ⟨q, x, move, letter, -, -, hmoves⟩ := (ContextSensitive.mem_transition_iff ha hboundary).mp
        ((ContextSensitive.mem_transition hboundary).mp hp)
      cases hmoves <;> exact Nat.le_succ _
    · obtain ⟨letter, -, x, -, ⟨q, -, place, rfl⟩ | ⟨b, -, ⟨trail, rfl⟩ | ⟨lead, rfl⟩⟩⟩ :=
        ContextSensitive.mem_recovery_iff.mp ((ContextSensitive.mem_recovery hboundary).mp hp) <;>
        exact Nat.le_succ _

/-- Generation makes a form that is no longer than its trace. -/
theorem length_form_of_ofWord (ha : a.WellFormed) (hword : a.Takes word)
    (h : Derivation.ofWord (Grammar.ofAutomaton a) word padding = .ok d) :
    d.form.length ≤ d.trace.length := by
  cases hboundary : a.boundary with
  | blank blank =>
    rw [(Unrestricted.generated_of_ofWord hboundary hword.2 h).length_trace,
      Unrestricted.length_of_ofWord hboundary h]
    omega
  | markers left right =>
    obtain ⟨d', hgenerated, hmirrors⟩ :=
      ContextSensitive.exists_mirrors_ofWord ha hboundary hword padding
    cases h.symm.trans hgenerated
    rw [(ContextSensitive.generated_of_ofWord hboundary hword h).length_trace, hmirrors.form_eq,
      ContextSensitive.encode, length_row]

/-- **From generation on, a form is never longer than its trace.** -/
theorem length_form_le_trace (ha : a.WellFormed) (hword : a.Takes word)
    (hgenerated : Derivation.ofWord (Grammar.ofAutomaton a) word padding = .ok d)
    (h : Replays (fun p => p ∈ (Grammar.ofAutomaton a).transition ∨
      p ∈ (Grammar.ofAutomaton a).recovery) d.traced productions t) :
    t.form.length ≤ t.trace.length := by
  have hbegin := length_form_of_ofWord ha hword hgenerated
  have hgrowth := h.length_form_le fun p hp => length_right_le ha hp
  simp only [Derivation.form, Derivation.trace] at hbegin
  omega

/-! ## 2. Traces -/

/-- Generation writes a production down for each letter, and, in an unrestricted grammar, for each padding
cell and four more. -/
theorem length_trace_of_ofWord_le (hword : a.Takes word)
    (h : Derivation.ofWord (Grammar.ofAutomaton a) word padding = .ok d) :
    word.length ≤ d.trace.length ∧
      d.trace.length ≤ padding.left + padding.right + word.length + 4 := by
  cases hboundary : a.boundary with
  | blank blank =>
    rw [(Unrestricted.generated_of_ofWord hboundary hword.2 h).length_trace]
    omega
  | markers left right =>
    rw [(ContextSensitive.generated_of_ofWord hboundary hword h).length_trace]
    omega

/-- Recovery writes down two productions for each cell, and one more, at most. -/
theorem Stretches.length_recovered_le (ha : a.WellFormed) (hword : a.Takes word) {verdict : Verdict}
    (s : Stretches (Grammar.ofAutomaton a) word verdict) :
    s.recovered.length ≤ 2 * (s.padding.left + s.padding.right + word.length) + 1 := by
  cases hboundary : a.boundary with
  | blank blank =>
    rw [s.length_recovered (Unrestricted.counts hboundary), Unrestricted.weigh_of_generated ha
      (Unrestricted.generated_of_ofWord hboundary hword.2 s.generated)]
  | markers left right =>
    rw [s.length_recovered (ContextSensitive.counts ha hboundary),
      ContextSensitive.weigh_of_generated hword.1
        (ContextSensitive.generated_of_ofWord hboundary hword s.generated)]
    omega

/-- **The trace of a verdict** holds what generation has written down and a production for each step; all
in all it is bounded by the padding of the last attempt and the number of steps. -/
theorem length_trace_of_conclude (ha : a.WellFormed) (hword : a.Takes word) {more : Nat}
    {verdict : Verdict}
    (hgenerated : Derivation.ofWord (Grammar.ofAutomaton a) word padding = .ok d₀)
    (hhalted : Derivation.toHalt (Grammar.ofAutomaton a) limit fuel d₀ = some (.ok d))
    (h : Derivation.conclude (Grammar.ofAutomaton a) more word d = some (.ok verdict)) :
    verdict.halt.steps = d.steps ∧ d₀.trace.length + d.steps ≤ verdict.halt.trace.length ∧
      verdict.halt.trace.length ≤ 3 * (padding.left + padding.right + word.length) + 5 + d.steps := by
  obtain ⟨-, hzero⟩ := Derivation.replays_of_ofWord hgenerated
  obtain ⟨moves, hmoves, hcount⟩ := Derivation.replays_of_toHalt hhalted
  obtain ⟨recovered, last, hrecovered, htrace, hsteps, -, hletters, hnone⟩ :=
    Derivation.replays_of_conclude h
  have hlength : verdict.halt.trace.length = d₀.trace.length + d.steps + recovered.length := by
    rw [← htrace, ← Trace.length_steps, hrecovered.steps_eq, hmoves.steps_eq, List.length_append,
      List.length_append, Trace.length_steps]
    show d₀.trace.length + moves.length + recovered.length = _
    omega
  have hbegin := length_trace_of_ofWord_le hword hgenerated
  refine ⟨hsteps, by omega, ?_⟩
  cases haccepted : verdict.isAccepted with
  | false =>
    rw [hnone haccepted, List.length_nil] at hlength
    omega
  | true =>
    have hrecovery := Stretches.length_recovered_le ha hword
      (⟨padding, d₀, moves, d.traced, recovered, last, hgenerated, hmoves, by omega, hrecovered,
        hletters haccepted, htrace⟩ : Stretches (Grammar.ofAutomaton a) word verdict)
    simp only at hrecovery
    omega

/-! ## 3. Attempts -/

namespace LockStep

/-- A padding that a check may try of a word of so many letters, if the machine makes `m` moves at most:
the first one on a side, or twice the number of moves at most. -/
structure Moderate (length m : Nat) (padding : Padding) : Prop where
  positive : Positive padding
  left_le : padding.left ≤ 2 * m + 1
  right_le : padding.right ≤ length + 2 + 2 * m

theorem moderate_first (length m : Nat) : Moderate length m ⟨1, length + 2⟩ where
  positive := positive_first length
  left_le := Nat.le_add_left 1 _
  right_le := Nat.le_add_right _ _

theorem Moderate.doubled {length : Nat} (h : Moderate length m padding) {side : Direction}
    (hle : paddingOn padding side ≤ m) : Moderate length m (doubled padding side) := by
  obtain ⟨hpos, hleft, hright⟩ := h
  refine ⟨hpos.doubled side, ?_, ?_⟩ <;> cases side <;> simp only [paddingOn] at hle <;>
    simp only [LockStep.doubled] <;> omega

variable {Mirrors : Padding → Derivation → Configuration → Prop}
  {edge? : Padding → Configuration → Option Direction} {c : Configuration}

/-- Doubling the padding keeps it moderate. -/
theorem Moderate.again (L : LockStep a g word Mirrors edge?) (hm : Bounded a word limit m)
    {wider : Padding} (h : Moderate word.length m padding)
    (hround : Derivation.attempt g limit fuel word padding = some (.again wider)) :
    Moderate word.length m wider := by
  rcases L.attempt_cases h.positive hround with ⟨result, heq, -⟩ | ⟨k, c, side, heq, hle, hc, hallows⟩
  · cases heq
  · cases heq
    exact h.doubled (hle.trans (hm k c hc hallows))

/-- The steps of a simulation that halts are moves of the machine within the limit. -/
theorem steps_le_of_toHalt (L : LockStep a g word Mirrors edge?) (hm : Bounded a word limit m)
    (hgenerated : Derivation.ofWord g word padding = .ok d₀)
    (hhalted : Derivation.toHalt g limit fuel d₀ = some (.ok d)) : d.steps ≤ m := by
  obtain ⟨d₀', hgenerated', hmirrors⟩ := L.generated padding
  cases hgenerated.symm.trans hgenerated'
  cases L.stops_of_toHalt hmirrors hhalted with
  | stuck k c _ hc hallows _ hd =>
    have hsteps : d.steps = k := by
      rw [L.steps_eq hd, Configuration.steps_after? hc, Configuration.steps_ofWord, Nat.zero_add]
    exact hsteps ▸ hm k c hc hallows

/-- **An attempt does the same in memory if there is room for what is generated and for every step**,
one that exceeds the limit included. -/
theorem attemptWithin_eq (L : LockStep a g word Mirrors edge?) (hpos : Positive padding)
    (hgenerated : Derivation.ofWord g word padding = .ok d) (hfirst : d.trace.length ≤ room)
    (hsteps : ∀ k c, after? a (k + 1) (.ofWord a word) = some c → Allows limit k →
      d.trace.length + k + 1 ≤ room) (fuel : Nat) :
    Derivation.attemptWithin g room limit fuel word padding =
      Derivation.attempt g limit fuel word padding := by
  simp only [Derivation.attemptWithin, hgenerated, if_neg (Nat.not_lt_of_le hfirst)]
  split
  · rename_i k hlimit
    obtain ⟨rfl, -⟩ := Configuration.filter_lt_eq_some_iff.mp hlimit
    rfl
  · rename_i hlimit
    have hallows := Configuration.filter_lt_eq_none_iff.mp hlimit
    -- a step that takes more than what is left of the room is not made
    have hkept : ∀ k, Derivation.attempt g (some (room - d.trace.length)) fuel word padding ≠
        some (.done (.error (.stepLimit k))) := by
      intro k hround
      rcases L.attempt_cases hpos hround with ⟨result, heq, hsettles⟩ | ⟨_, _, _, heq, -⟩
      · cases heq
        cases hsettles with
        | limited _ c hk hc =>
          cases hk
          have := hsteps _ c hc hallows
          omega
      · cases heq
    rcases Derivation.attempt_cut (g := g) hallows fuel word padding with hsame | hcut
    · split
      · rename_i hround
        exact absurd hround (hkept _)
      · exact hsame
    · exact absurd hcut (hkept _)

end LockStep

/-! ## 4. Checks with few moves -/

section Small

variable {Mirrors : Padding → Derivation → Configuration → Prop}
  {edge? : Padding → Configuration → Option Direction}

/-- Every attempt with a moderate padding has room for its trace, if the machine makes few moves. -/
theorem attempts_eq (L : LockStep a (Grammar.ofAutomaton a) word Mirrors edge?) (hword : a.Takes word)
    (hm : Bounded a word limit m) (hroom : 13 * m + 6 * word.length + 15 ≤ room) (fuel more : Nat) :
    iterate (Derivation.attemptWithin (Grammar.ofAutomaton a) room limit fuel word) more
        ⟨1, word.length + 2⟩ =
      iterate (Derivation.attempt (Grammar.ofAutomaton a) limit fuel word) more
        ⟨1, word.length + 2⟩ := by
  refine iterate_congr (I := LockStep.Moderate word.length m) ?_
    (fun _ _ hpadding hround => hpadding.again L hm hround) more (LockStep.moderate_first _ _)
  intro padding hpadding
  obtain ⟨d, hgenerated⟩ := exists_ofWord hword padding
  have hbegin := length_trace_of_ofWord_le hword hgenerated
  have hleft := hpadding.left_le
  have hright := hpadding.right_le
  refine L.attemptWithin_eq hpadding.positive hgenerated (by omega) (fun k c hc hallows => ?_) fuel
  -- the last of these steps may exceed the limit, those before it do not
  obtain ⟨c', -, hc', -⟩ := Configuration.after?_succ_iff.mp hc
  have hle := hm k c' hc' hallows
  omega

/-- A verdict that the attempts lead to has room for its trace as well. -/
theorem within_of_attempts (ha : a.WellFormed)
    (L : LockStep a (Grammar.ofAutomaton a) word Mirrors edge?) (hword : a.Takes word)
    (hm : Bounded a word limit m) (hroom : 13 * m + 6 * word.length + 15 ≤ room) {more most : Nat}
    {verdict : Verdict}
    (hloop : iterate (Derivation.attempt (Grammar.ofAutomaton a) limit fuel word) more
      ⟨1, word.length + 2⟩ = some (.ok d))
    (h : Derivation.conclude (Grammar.ofAutomaton a) most word d = some (.ok verdict)) :
    verdict.within room = .ok verdict := by
  obtain ⟨padding, d₀, hpadding, hgenerated, hhalted⟩ := Derivation.exists_of_attempts_among
    (fun _ _ hpadding hround => LockStep.Moderate.again L hm hpadding hround)
    (LockStep.moderate_first _ _) hloop
  obtain ⟨-, -, hlength⟩ := length_trace_of_conclude ha hword hgenerated hhalted h
  have hsteps := L.steps_le_of_toHalt hm hgenerated hhalted
  have hleft := hpadding.left_le
  have hright := hpadding.right_le
  rw [Verdict.within, if_pos (by omega)]

/-- **A check of a word on which the machine makes few moves has room for every trace.** -/
theorem checkWithin_eq_check (ha : a.WellFormed)
    (L : a.Takes word → LockStep a (Grammar.ofAutomaton a) word Mirrors edge?)
    (hm : a.Takes word → Bounded a word limit m) (hroom : 13 * m + 6 * word.length + 15 ≤ room)
    (fuel : Nat) :
    (Grammar.ofAutomaton a).checkWithin room limit fuel word =
      (Grammar.ofAutomaton a).check limit fuel word := by
  cases herror : (Grammar.ofAutomaton a).wordError? word with
  | some error => simp only [Grammar.checkWithin, Grammar.check, herror]
  | none =>
    have hword : a.Takes word := by
      have htakes := Grammar.wordError?_eq_none_iff.mp herror
      rwa [Grammar.automaton_ofAutomaton] at htakes
    rcases LockStep.forLength_cases word.length with hfit | ⟨hfault, -⟩
    · simp only [Grammar.checkWithin, Grammar.check, herror, hfit,
        attempts_eq (L hword) hword (hm hword) hroom]
      cases hloop : iterate (Derivation.attempt (Grammar.ofAutomaton a) limit fuel word) fuel
          ⟨1, word.length + 2⟩ with
      | none => rfl
      | some settled =>
        cases settled with
        | error error => rfl
        | ok d =>
          simp only
          cases hconclude : Derivation.conclude (Grammar.ofAutomaton a) fuel word d with
          | none => rfl
          | some result =>
            cases result with
            | error error => rfl
            | ok verdict =>
              exact congrArg some
                (within_of_attempts ha (L hword) hword (hm hword) hroom hloop hconclude)
    · simp only [Grammar.checkWithin, Grammar.check, herror, hfault]

end Small

/-! ## 5. Checks of numbers -/

/-- The number, and the moves that the machine makes on it within the limit, are few enough for every
list of a check to have room. -/
def FewMoves (a : Automaton) (limit : Option Nat) (n : Nat) : Prop :=
  ∀ m c, after? a m (.ofWord a (Unary.word n)) = some c → (m = 0 ∨ a.Takes (Unary.word n)) →
    Allows limit m → 13 * m + 6 * n + 15 ≤ Room.maxTrace

theorem FewMoves.number_le (h : FewMoves a limit n) : 6 * n + 15 ≤ Room.maxTrace := by
  simpa using h 0 _ Configuration.after?_zero (Or.inl rfl) fun _ _ => Nat.zero_le _

theorem FewMoves.length_le (h : FewMoves a limit n) : n ≤ Unary.maxLength := by
  have hmax : Room.maxTrace ≤ Unary.maxLength := by decide
  have := h.number_le
  omega

/-- The moves are bounded by what the number leaves of the room. -/
theorem FewMoves.bounded (h : FewMoves a limit n) (hword : a.Takes (Unary.word n)) :
    Bounded a (Unary.word n) limit ((Room.maxTrace - (6 * n + 15)) / 13) := by
  intro m c hc hallows
  have := h m c hc (Or.inr hword) hallows
  omega

/-- No size leaves the range of a 64-bit word. -/
theorem FewMoves.fits (h : FewMoves a limit n) (hword : a.Takes (Unary.word n)) :
    Fits a limit (Unary.word n) := by
  have hmax : Room.maxTrace ≤ maxSize := by decide
  have hnumber := h.number_le
  constructor
  · rw [Unary.length_word]
    omega
  · intro m c hc hallows
    have := h m c hc (Or.inr hword) hallows
    omega

theorem FewMoves.hasRoom (h : FewMoves a limit n) (g : Grammar) :
    g.hasRoom (Unary.word n) = true := by
  have hplan : Room.maxTrace ≤ Room.maxPlan := by decide
  have hforeign : Room.maxTrace ≤ Room.maxForeign := by decide
  have hnumber := h.number_le
  cases herror : g.wordError? (Unary.word n) with
  | none =>
    simp only [Grammar.hasRoom, herror, Unary.length_word, decide_eq_true_eq]
    cases g.kind <;> simp only [GrammarKind.planBlock] <;> omega
  | some error =>
    rcases Grammar.wordError?_eq_some herror with rfl | ⟨letters, hletters, rfl⟩
    · simp only [Grammar.hasRoom, herror]
    · have hle := hletters.length_le
      rw [Unary.length_word] at hle
      simp only [Grammar.hasRoom, herror, decide_eq_true_eq]
      omega

section Numbers

variable {Mirrors : Padding → Derivation → Configuration → Prop}
  {edge? : Padding → Configuration → Option Direction}

/-- **A check of a number on which the machine makes few moves does the same in memory.** -/
theorem checkNumber_eq_check (ha : a.WellFormed)
    (L : a.Takes (Unary.word n) → LockStep a (Grammar.ofAutomaton a) (Unary.word n) Mirrors edge?)
    (h : FewMoves a limit n) (fuel : Nat) :
    (Grammar.ofAutomaton a).checkNumber limit fuel n =
      (Grammar.ofAutomaton a).check limit fuel (Unary.word n) := by
  rw [Grammar.checkNumber_eq h.length_le (h.hasRoom _)]
  refine checkWithin_eq_check ha L h.bounded ?_ fuel
  have hnumber := h.number_le
  rw [Unary.length_word]
  omega

/-- **Such a check does not end in a fault.** -/
theorem checkNumber_ne_fault (ha : a.WellFormed)
    (L : a.Takes (Unary.word n) → LockStep a (Grammar.ofAutomaton a) (Unary.word n) Mirrors edge?)
    (h : FewMoves a limit n) (fuel : Nat) (fault : Fault) :
    (Grammar.ofAutomaton a).checkNumber limit fuel n ≠ some (.error (.fault fault)) := by
  rw [checkNumber_eq_check ha L h]
  intro hcheck
  have hauto := Grammar.automaton_ofAutomaton a
  by_cases hword : a.Takes (Unary.word n)
  · rcases (L hword).ends_of_answers hword ⟨fuel, hcheck⟩ with
      ⟨k, c, heq, -⟩ | ⟨verdict, c, heq, -⟩ | ⟨-, hlarge⟩
    · cases heq
    · cases heq
    · exact (h.fits hword).not_overflows hlarge
  · obtain ⟨error, hinvalid, hrefused⟩ :=
      Grammar.refused_of_not_takes limit (by rwa [hauto] : ¬ (Grammar.ofAutomaton a).automaton.Takes _)
    cases (hrefused _).mp ⟨fuel, hcheck⟩
    cases hinvalid

end Numbers

/-- On a number that the machine takes the plan decides whether there is room at the beginning. -/
theorem Grammar.hasRoom_of_takes (hword : g.automaton.Takes (Unary.word n)) :
    g.hasRoom (Unary.word n) = decide (g.kind.planBlock n ≤ Room.maxPlan) := by
  simp only [hasRoom, Grammar.wordError?_eq_none_iff.mpr hword, Unary.length_word]

/-! ## 6. Runs that stay within the first padding -/

/-- The trace of the verdict on a configuration is the one that it is given. -/
theorem Verdict.trace_ofHalt (a : Automaton) (word : Word) (c : Configuration) (trace : Trace) :
    (ofHalt a word c trace).halt.trace = trace := by
  unfold ofHalt
  split <;> rfl

/-- **If the first padding has room for the whole run, the check in memory ends with the verdict, or with a
fault where the trace of the verdict is too long.**  Nothing else depends on how long the run is. -/
theorem LockStep.exists_trace_of_room (ha : a.WellFormed) {c : Configuration}
    {Mirrors : Padding → Derivation → Configuration → Prop}
    {edge? : Padding → Configuration → Option Direction}
    (L : LockStep a (Grammar.ofAutomaton a) word Mirrors edge?) (hword : a.Takes word)
    (hsize : word.length + 2 ≤ maxSize) (hc : after? a n (.ofWord a word) = some c)
    (hhalt : c.pending? a = none) (hallows : Allows limit n)
    (hedge : ∀ m c₁, after? a m (.ofWord a word) = some c₁ →
      edge? ⟨1, word.length + 2⟩ c₁ = none) :
    ∃ trace : Trace, n + word.length ≤ trace.length ∧ trace.length ≤ n + 6 * word.length + 14 ∧
      ∀ room, ∃ fuel, (Grammar.ofAutomaton a).checkWithin room limit fuel word =
        some ((Verdict.ofHalt a word c trace).within room) := by
  have hnone := L.wordError?_eq_none hword
  have hfit : Padding.forLength word.length = .ok ⟨1, word.length + 2⟩ :=
    (forLength_cases word.length).resolve_right fun hfault => absurd hfault.2 (by omega)
  obtain ⟨d, d₁, hgenerated, hhalted, hd₁, hattempt⟩ := L.attempt_of_room hc hhalt hallows hedge
  obtain ⟨fuel, trace, hconclude⟩ := L.concluded hd₁
  obtain ⟨-, hbegin, hlength⟩ := length_trace_of_conclude ha hword hgenerated hhalted hconclude
  have hfirst := (length_trace_of_ofWord_le hword hgenerated).1
  have hsteps : d₁.steps = n := by
    rw [L.steps_eq hd₁, Configuration.steps_after? hc, Configuration.steps_ofWord, Nat.zero_add]
  rw [Verdict.trace_ofHalt, hsteps] at hbegin hlength
  simp only at hlength
  refine ⟨trace, by omega, by omega, fun room => ⟨max (n + 1) fuel, ?_⟩⟩
  have hpositive : 1 ≤ max (n + 1) fuel := (Nat.le_add_left 1 n).trans (Nat.le_max_left _ _)
  have hattempt' := Derivation.attempt_of_le (Nat.le_max_left (n + 1) fuel) hattempt
  have hconclude' := Derivation.conclude_of_le (Nat.le_max_right (n + 1) fuel) hconclude
  rcases Nat.lt_or_ge room trace.length with hlong | hroom
  · -- the verdict is cut, since it is not given in full
    have hloop := iterate_of_le hpositive (iterate_succ_of_done hattempt')
    have hcheck : (Grammar.ofAutomaton a).check limit (max (n + 1) fuel) word =
        some (.ok (.ofHalt a word c trace)) := by
      simp only [Grammar.check, hnone, hfit, hloop, hconclude']
    rw [Grammar.checkWithin_of_long hcheck (by rwa [Verdict.trace_ofHalt]), Verdict.within,
      Verdict.trace_ofHalt, if_neg (Nat.not_le_of_lt hlong)]
  · have hwithin : Derivation.attemptWithin (Grammar.ofAutomaton a) room limit (max (n + 1) fuel) word
        ⟨1, word.length + 2⟩ = some (.done (.ok d₁)) := by
      refine (L.attemptWithin_eq (positive_first word.length) hgenerated (by omega)
        (fun k c₁ hc₁ _ => ?_) _).trans hattempt'
      have hle := Configuration.le_of_halted hc hhalt hc₁
      omega
    have hloop := iterate_of_le hpositive (iterate_succ_of_done hwithin)
    simp only [Grammar.checkWithin, hnone, hfit, hloop, hconclude', Option.map_some, Except.bind]

end TapeGrammar
