import TapeGrammar.Proofs.Fuel
import TapeGrammar.Proofs.Phases
import TapeGrammar.Proofs.Run

/-!
# Derivations in lock-step with a machine

Both constructions mirror a machine in the same way: a relation `Mirrors` holds between the derived
form and the configuration after generation, and a transition production keeps it exactly as a move
of the machine does.  They differ in the form, and in what the form lacks: an unrestricted row of
cells has EDGES, beyond which a machine may still have a move.

`LockStep` collects what a construction has to show.  From it follows, for both constructions at
once, how a check ends (`LockStep.concludes_of_answers`) and that it does end when the run of the
machine does (`LockStep.answers_of_bounded`).  Doubling the padding comes to an end because the head
has to be at an edge: the padding on that side is then no larger than the number of steps made.
-/

namespace TapeGrammar

/-- The verdict on a word whose run has halted in a configuration. -/
def Verdict.ofHalt (a : Automaton) (word : Word) (c : Configuration) (trace : Trace) : Verdict :=
  if a.isFinal c.state then .accepted ⟨c.state, c.steps, trace⟩ word
  else .rejected ⟨c.state, c.steps, trace⟩

/-- **The verdict on a derivation is that on the configuration** whose state the cursor is on, if what
is recovered from a final configuration is the word. -/
theorem Derivation.conclude_eq_ofHalt (r : Reading) {g : Grammar} {word : Word} {d : Derivation}
    {c : Configuration} (hstate : stateCarried g d = .ok c.state) (hsteps : d.steps = c.steps)
    (hkept : ∀ p ∈ g.recovery, r.spelled p.left = r.spelled p.right)
    (hword : r.spelled d.form = word)
    (hrecover : g.automaton.isFinal c.state = true →
      ∃ fuel t, recoverWord g fuel c.state d = some (.ok t) ∧ t.form.isTerminal = true) :
    ∃ fuel trace, conclude g fuel word d = some (.ok (.ofHalt g.automaton word c trace)) := by
  simp only [conclude, hstate]
  cases hq : g.automaton.isFinal c.state with
  | false =>
    refine ⟨0, d.trace, ?_⟩
    simp only [Verdict.ofHalt, hq, hsteps]
    rfl
  | true =>
    obtain ⟨fuel, t, ht, hterminal⟩ := hrecover hq
    have hletters : Form.letters t.form = word :=
      (letters_of_recoverWord r hkept ht hterminal).trans hword
    refine ⟨fuel, t.trace, ?_⟩
    simp only [if_true, ht, accept, hterminal, hletters, Verdict.ofHalt, hq, hsteps]
    simp

/-- The machine makes at most so many moves within the limit. -/
def Bounded (a : Automaton) (word : Word) (limit : Option Nat) (m : Nat) : Prop :=
  ∀ n c, Configuration.after? a n (.ofWord a word) = some c → Configuration.Allows limit n → n ≤ m

/-- The sizes that a check counts with fit a 64-bit word: that of the word with its first padding,
and twice the number of any moves within the limit. -/
def Fits (a : Automaton) (limit : Option Nat) (word : Word) : Prop :=
  word.length + 2 ≤ maxSize ∧ ∀ n c, Configuration.after? a n (.ofWord a word) = some c →
    Configuration.Allows limit n → 2 * n ≤ maxSize

/-- A check has to count further than 64 bits go: the first padding, or twice the number of moves
that lead beyond some padding. -/
def Overflows (a : Automaton) (limit : Option Nat) (word : Word)
    (edge? : Padding → Configuration → Option Direction) : Prop :=
  maxSize < word.length + 2 ∨ ∃ n c padding,
    Configuration.after? a n (.ofWord a word) = some c ∧ Configuration.Allows limit n ∧
      edge? padding c ≠ none ∧ maxSize < 2 * n

theorem Fits.not_overflows {a : Automaton} {limit : Option Nat} {word : Word}
    {edge? : Padding → Configuration → Option Direction} (h : Fits a limit word) :
    ¬ Overflows a limit word edge? := by
  rintro (hlarge | ⟨n, c, padding, hc, hallows, -, hlarge⟩)
  · have := h.1
    omega
  · have := h.2 n c hc hallows
    omega

theorem Grammar.wordError?_eq_none_iff {g : Grammar} {word : Word} :
    g.wordError? word = none ↔ g.automaton.Takes word := by
  unfold wordError? Automaton.Takes
  cases word with
  | nil => simp
  | cons first rest =>
    simp only [List.isEmpty_cons, Bool.false_eq_true, if_false, ite_eq_left_iff, reduceCtorEq,
      imp_false, Classical.not_not, List.isEmpty_iff, List.filter_eq_nil_iff, alphabet]
    simp

/-- A grammar mirrors a machine on a word: `Mirrors padding` relates the derivations with that
padding to the configurations of the machine, and `edge? padding` says at which end of the generated
cells a configuration has no room for its move. -/
structure LockStep (a : Automaton) (g : Grammar) (word : Word)
    (Mirrors : Padding → Derivation → Configuration → Prop)
    (edge? : Padding → Configuration → Option Direction) : Prop where
  automaton_eq : g.automaton = a
  /-- Generation mirrors the machine at the beginning of its run. -/
  generated : ∀ padding, ∃ d, Derivation.ofWord g word padding = .ok d ∧
    Mirrors padding d (.ofWord a word)
  steps_eq : ∀ {padding d c}, Mirrors padding d c → d.steps = c.steps
  /-- A move inside the cells is a step of the derivation. -/
  moved : ∀ {padding d c move}, Mirrors padding d c → c.pending? a = some move →
    edge? padding c = none → ∃ d', Derivation.step g d = .ok (some d') ∧
      Mirrors padding d' (c.apply a move)
  /-- Without a move, or without room for it, the derivation stops. -/
  stuck : ∀ {padding d c}, Mirrors padding d c → c.pending? a = none ∨ edge? padding c ≠ none →
    Derivation.step g d = .ok none
  /-- Where the derivation stops, cells are missed exactly if there is a move. -/
  missing : ∀ {padding d c}, Mirrors padding d c → c.pending? a = none ∨ edge? padding c ≠ none →
    Derivation.missingSide? g d = (c.pending? a).bind fun _ => edge? padding c
  edge_left : ∀ {padding c}, edge? padding c = some .left → c.head = -(padding.left : Int)
  edge_right : ∀ {padding c}, edge? padding c = some .right →
    c.head = (word.length : Int) + padding.right
  /-- The verdict is that on the configuration. -/
  concluded : ∀ {padding d c}, Mirrors padding d c → ∃ fuel trace,
    Derivation.conclude g fuel word d = some (.ok (.ofHalt a word c trace))

namespace LockStep

open TapeGrammar.Configuration (after? after?_succ Allows filter_lt_eq_none_iff filter_lt_eq_some_iff)
open TapeGrammar.Derivation (stepRound toHalt attempt missingSide? conclude)

variable {a : Automaton} {g : Grammar} {word : Word}
  {Mirrors : Padding → Derivation → Configuration → Prop}
  {edge? : Padding → Configuration → Option Direction}
  {padding : Padding} {d : Derivation} {c : Configuration} {move : Move} {limit : Option Nat}

/-! ## 1. One attempt -/

/-- A move with room is made, unless the limit forbids it. -/
theorem stepRound_of_moved (L : LockStep a g word Mirrors edge?) (limit : Option Nat)
    (h : Mirrors padding d c) (hmove : c.pending? a = some move)
    (hedge : edge? padding c = none) : ∃ d', Mirrors padding d' (c.apply a move) ∧
      (Allows limit (c.steps + 1) → stepRound g limit d = .again d') ∧
      ∀ k, limit = some k → k ≤ c.steps →
        stepRound g limit d = .done (.error (.stepLimit k)) := by
  obtain ⟨d', hstep, hd'⟩ := L.moved h hmove hedge
  have hsteps : d'.steps = c.steps + 1 := L.steps_eq hd'
  refine ⟨d', hd', ?_, ?_⟩
  · intro hallows
    have hnone := filter_lt_eq_none_iff.mpr hallows
    simp only [stepRound, hstep, Derivation.exceeded, hsteps, hnone]
  · intro k hlimit hle
    have hsome := filter_lt_eq_some_iff.mpr ⟨hlimit, Nat.lt_succ_of_le hle⟩
    simp only [stepRound, hstep, Derivation.exceeded, hsteps, hsome]

/-- Without a move, or without room for it, the simulation is over. -/
theorem stepRound_of_stuck (L : LockStep a g word Mirrors edge?) (h : Mirrors padding d c)
    (hstuck : c.pending? a = none ∨ edge? padding c ≠ none) :
    stepRound g limit d = .done (.ok d) := by
  simp only [stepRound, L.stuck h hstuck]

/-- The simulation is past `n` moves of the machine. -/
def Reaches (a : Automaton) (word : Word) (Mirrors : Padding → Derivation → Configuration → Prop)
    (limit : Option Nat) (padding : Padding) (d : Derivation) : Prop :=
  ∃ c, after? a d.steps (.ofWord a word) = some c ∧ Mirrors padding d c ∧ Allows limit d.steps

theorem reaches_of_generated (L : LockStep a g word Mirrors edge?)
    (h : Mirrors padding d (.ofWord a word)) : Reaches a word Mirrors limit padding d := by
  have hsteps : d.steps = 0 := by rw [L.steps_eq h, Configuration.steps_ofWord]
  refine ⟨.ofWord a word, ?_, h, ?_⟩
  · rw [hsteps]
    rfl
  · rw [hsteps]
    exact fun k _ => Nat.zero_le k

/-- How the simulation with a given padding ends. -/
inductive Stops (a : Automaton) (word : Word)
    (Mirrors : Padding → Derivation → Configuration → Prop)
    (edge? : Padding → Configuration → Option Direction) (limit : Option Nat) (padding : Padding) :
    Except CheckError Derivation → Prop where
  /-- The machine makes one step more than the limit allows. -/
  | limited (k : Nat) (c : Configuration) (hlimit : limit = some k)
    (h : after? a (k + 1) (.ofWord a word) = some c) :
    Stops a word Mirrors edge? limit padding (.error (.stepLimit k))
  /-- There is no move, or no room for it. -/
  | stuck (n : Nat) (c : Configuration) (d : Derivation)
    (h : after? a n (.ofWord a word) = some c) (hallows : Allows limit n)
    (hstuck : c.pending? a = none ∨ edge? padding c ≠ none) (hd : Mirrors padding d c) :
    Stops a word Mirrors edge? limit padding (.ok d)

/-- **One round keeps the derivation beside the machine**, or ends as the machine does. -/
theorem stepRound_cases (L : LockStep a g word Mirrors edge?)
    (h : Reaches a word Mirrors limit padding d) :
    (∃ result, stepRound g limit d = .done result ∧
        Stops a word Mirrors edge? limit padding result) ∨
      ∃ d', stepRound g limit d = .again d' ∧ Reaches a word Mirrors limit padding d' ∧
        d'.steps = d.steps + 1 := by
  obtain ⟨c, hc, hd, hallows⟩ := h
  have hsteps := L.steps_eq hd
  by_cases hstuck : c.pending? a = none ∨ edge? padding c ≠ none
  · exact Or.inl ⟨_, L.stepRound_of_stuck hd hstuck, .stuck _ c d hc hallows hstuck hd⟩
  · obtain ⟨hpending, hedge⟩ := not_or.mp hstuck
    obtain ⟨move, hmove⟩ := Option.ne_none_iff_exists'.mp hpending
    obtain ⟨d', hd', hagain, hdone⟩ :=
      L.stepRound_of_moved limit hd hmove (Classical.not_not.mp hedge)
    have hnext : after? a (d.steps + 1) (.ofWord a word) = some (c.apply a move) :=
      after?_succ hc hmove
    by_cases hlimit : Allows limit (c.steps + 1)
    · have hd'steps : d'.steps = d.steps + 1 := by rw [L.steps_eq hd', hsteps]; rfl
      refine Or.inr ⟨d', hagain hlimit, ⟨c.apply a move, ?_, hd', ?_⟩, hd'steps⟩
      · rw [hd'steps]
        exact hnext
      · rw [hd'steps, hsteps]
        exact hlimit
    · obtain ⟨k, hk, hlt⟩ : ∃ k, limit = some k ∧ k < c.steps + 1 := by
        simpa [Allows] using hlimit
      have hkeq : d.steps = k := by
        have := hallows k hk
        omega
      rw [hkeq] at hnext
      exact Or.inl ⟨_, hdone k hk (by omega), .limited k _ hk hnext⟩

/-- The simulation ends as the machine does, or for want of room. -/
theorem stops_of_toHalt (L : LockStep a g word Mirrors edge?)
    (h : Mirrors padding d (.ofWord a word)) {fuel : Nat} {result : Except CheckError Derivation}
    (hrun : toHalt g limit fuel d = some result) :
    Stops a word Mirrors edge? limit padding result := by
  refine iterate_invariant (I := Reaches a word Mirrors limit padding)
    (P := Stops a word Mirrors edge? limit padding) ?_ ?_ (L.reaches_of_generated h) hrun
  · intro s next hs hround
    have hround := Option.some.inj hround
    rcases L.stepRound_cases hs with ⟨result, heq, -⟩ | ⟨d', heq, hd', -⟩
    · rw [heq] at hround
      cases hround
    · rw [heq] at hround
      cases hround
      exact hd'
  · intro s out hs hround
    have hround := Option.some.inj hround
    rcases L.stepRound_cases hs with ⟨result, heq, hstops⟩ | ⟨d', heq, -⟩
    · rw [heq] at hround
      cases hround
      exact hstops
    · rw [heq] at hround
      cases hround

/-- A simulation beside a run that ends comes to an end. -/
theorem toHalt_terminates (L : LockStep a g word Mirrors edge?) {m fuel : Nat}
    (hm : Bounded a word limit m) (h : Mirrors padding d (.ofWord a word)) (hfuel : m < fuel) :
    ∃ result, toHalt g limit fuel d = some result := by
  refine iterate_terminates (I := Reaches a word Mirrors limit padding)
    (m := fun s => m - s.steps) ?_ (L.reaches_of_generated h) (by omega)
  intro s hs
  rcases L.stepRound_cases hs with ⟨result, heq, -⟩ | ⟨d', heq, hd', hsteps⟩
  · exact Or.inl ⟨result, congrArg some heq⟩
  · obtain ⟨c', hc', -, hallows⟩ := id hd'
    have hle := hm _ _ hc' hallows
    exact Or.inr ⟨d', congrArg some heq, hd', by omega⟩

/-! ## 2. More and more padding -/

/-- How the attempts at a word end. -/
inductive Settles (a : Automaton) (word : Word)
    (Mirrors : Padding → Derivation → Configuration → Prop)
    (edge? : Padding → Configuration → Option Direction) (limit : Option Nat) :
    Except CheckError Derivation → Prop where
  /-- The machine makes one step more than the limit allows. -/
  | limited (k : Nat) (c : Configuration) (hlimit : limit = some k)
    (h : after? a (k + 1) (.ofWord a word) = some c) :
    Settles a word Mirrors edge? limit (.error (.stepLimit k))
  /-- The machine halts. -/
  | halted (n : Nat) (c : Configuration) (padding : Padding) (d : Derivation)
    (h : after? a n (.ofWord a word) = some c) (hallows : Allows limit n)
    (hhalt : c.pending? a = none) (hd : Mirrors padding d c) :
    Settles a word Mirrors edge? limit (.ok d)
  /-- The machine leaves the cells after so many steps that their number can not be doubled. -/
  | overflow (n : Nat) (c : Configuration) (padding : Padding)
    (h : after? a n (.ofWord a word) = some c) (hallows : Allows limit n)
    (hedge : edge? padding c ≠ none) (hlarge : maxSize < 2 * n) :
    Settles a word Mirrors edge? limit (.error (.fault .overflow))

/-- There is padding on both sides. -/
def Positive (padding : Padding) : Prop := 1 ≤ padding.left ∧ 1 ≤ padding.right

theorem positive_first (length : Nat) : Positive ⟨1, length + 2⟩ :=
  ⟨Nat.le_refl 1, Nat.le_add_left 1 (length + 1)⟩

/-- Doubling a padding that is no larger than a number of steps. -/
theorem fitSize_double {size n : Nat} (hpos : 1 ≤ size) (hle : size ≤ n) :
    fitSize (max size 1 * 2) = .ok (2 * size) ∨
      (fitSize (max size 1 * 2) = .error .overflow ∧ maxSize < 2 * n) := by
  have hmax : max size 1 * 2 = 2 * size := by omega
  rw [hmax]
  unfold fitSize
  split
  · exact Or.inl rfl
  · exact Or.inr ⟨rfl, by omega⟩

/-- What is left to double before the padding exceeds a number of moves. -/
def shortfall (m : Nat) (padding : Padding) : Nat :=
  (m + 1 - padding.left) + (m + 1 - padding.right)

/-- The padding on one side. -/
def paddingOn (padding : Padding) : Direction → Nat
  | .left => padding.left
  | .right => padding.right

/-- The padding with twice as much on one side. -/
def doubled (padding : Padding) : Direction → Padding
  | .left => { padding with left := 2 * padding.left }
  | .right => { padding with right := 2 * padding.right }

theorem Positive.doubled (hpos : Positive padding) (side : Direction) :
    Positive (doubled padding side) := by
  obtain ⟨hleft, hright⟩ := hpos
  cases side <;> exact ⟨by simp only [LockStep.doubled]; omega, by simp only [LockStep.doubled]; omega⟩

/-- Doubling what a number of moves exceeds makes progress. -/
theorem shortfall_doubled_lt (hpos : Positive padding) {side : Direction} {m : Nat}
    (hle : paddingOn padding side ≤ m) : shortfall m (doubled padding side) < shortfall m padding := by
  obtain ⟨hleft, hright⟩ := hpos
  cases side <;> simp only [paddingOn] at hle <;> simp only [shortfall, doubled] <;> omega

/-- A padding that is no larger than a number of steps can be doubled, or else that number can not. -/
theorem double_eq (hpos : Positive padding) {side : Direction} {n : Nat}
    (hle : paddingOn padding side ≤ n) :
    padding.double side = .ok (doubled padding side) ∨
      (padding.double side = .error .overflow ∧ maxSize < 2 * n) := by
  have hone : 1 ≤ paddingOn padding side := by
    cases side
    · exact hpos.1
    · exact hpos.2
  rcases fitSize_double hone hle with hfit | ⟨hfit, hlarge⟩
  · refine Or.inl ?_
    cases side <;> simp only [paddingOn] at hfit <;> simp only [Padding.double, hfit] <;> rfl
  · refine Or.inr ⟨?_, hlarge⟩
    cases side <;> simp only [paddingOn] at hfit <;> simp only [Padding.double, hfit] <;> rfl

/-- **Where the run has no room the padding is no larger than the number of its steps.** -/
theorem paddingOn_le (L : LockStep a g word Mirrors edge?) {n : Nat}
    (hc : after? a n (.ofWord a word) = some c) {side : Direction}
    (hedge : edge? padding c = some side) : paddingOn padding side ≤ n := by
  have hhead := Configuration.head_after? hc
  rw [Configuration.head_ofWord] at hhead
  cases side with
  | left =>
    have := L.edge_left hedge
    simp only [paddingOn]
    omega
  | right =>
    have := L.edge_right hedge
    simp only [paddingOn]
    omega

/-- **One attempt** settles the matter, or is followed by another one with twice the padding on a side
where it was no larger than the number of the steps made. -/
theorem attempt_cases (L : LockStep a g word Mirrors edge?) (hpos : Positive padding) {fuel : Nat}
    {round : Round Padding (Except CheckError Derivation)}
    (hround : attempt g limit fuel word padding = some round) :
    (∃ result, round = .done result ∧ Settles a word Mirrors edge? limit result) ∨
      ∃ n c side, round = .again (doubled padding side) ∧ paddingOn padding side ≤ n ∧
        after? a n (.ofWord a word) = some c ∧ Allows limit n := by
  obtain ⟨d, hgenerated, hd⟩ := L.generated padding
  simp only [attempt, hgenerated] at hround
  cases hrun : toHalt g limit fuel d with
  | none =>
    rw [hrun] at hround
    cases hround
  | some result =>
    rw [hrun] at hround
    cases L.stops_of_toHalt hd hrun with
    | limited k c hlimit hc =>
      cases hround
      exact Or.inl ⟨_, rfl, .limited k c hlimit hc⟩
    | stuck n c d' hc hallows hstuck hd' =>
      simp only [L.missing hd' hstuck] at hround
      cases hp : c.pending? a with
      | none =>
        rw [hp] at hround
        cases hround
        exact Or.inl ⟨_, rfl, .halted n c padding d' hc hallows hp hd'⟩
      | some move =>
        rw [hp] at hround hstuck
        obtain ⟨side, hside⟩ : ∃ side, edge? padding c = some side :=
          Option.ne_none_iff_exists'.mp (by simpa using hstuck)
        simp only [Option.bind_some, hside] at hround
        have hle := L.paddingOn_le hc hside
        rcases double_eq hpos hle with hwider | ⟨hfault, hlarge⟩
        · rw [hwider] at hround
          cases hround
          exact Or.inr ⟨n, c, side, rfl, hle, hc, hallows⟩
        · rw [hfault] at hround
          cases hround
          exact Or.inl ⟨_, rfl, .overflow n c padding hc hallows (by simp [hside]) hlarge⟩

/-- The attempts settle the matter, if they end. -/
theorem settles_of_iterate (L : LockStep a g word Mirrors edge?) (hpos : Positive padding)
    {fuel : Nat} {more : Nat} {result : Except CheckError Derivation}
    (h : iterate (attempt g limit fuel word) more padding = some result) :
    Settles a word Mirrors edge? limit result := by
  refine iterate_invariant (I := Positive) (P := Settles a word Mirrors edge? limit) ?_ ?_ hpos h
  · intro padding wider hpos hround
    rcases L.attempt_cases hpos hround with ⟨result, heq, -⟩ | ⟨n, c, side, heq, -⟩
    · cases heq
    · cases heq
      exact hpos.doubled side
  · intro padding out hpos hround
    rcases L.attempt_cases hpos hround with ⟨result, heq, hsettles⟩ | ⟨n, c, side, heq, -⟩
    · cases heq
      exact hsettles
    · cases heq

/-- The attempts at a word whose run ends come to an end. -/
theorem attempts_terminate (L : LockStep a g word Mirrors edge?) (hpos : Positive padding) {m : Nat}
    (hm : Bounded a word limit m) :
    ∃ more result, iterate (attempt g limit (m + 1) word) more padding = some result := by
  refine ⟨shortfall m padding + 1, ?_⟩
  refine iterate_terminates (I := Positive) (m := shortfall m) ?_ hpos (Nat.lt_succ_self _)
  intro padding hpos
  obtain ⟨round, hround⟩ : ∃ round, attempt g limit (m + 1) word padding = some round := by
    obtain ⟨d, hgenerated, hd⟩ := L.generated padding
    obtain ⟨result, hrun⟩ := L.toHalt_terminates hm hd (Nat.lt_succ_self m)
    simp only [attempt, hgenerated, hrun]
    split
    · contradiction
    · exact ⟨_, rfl⟩
    · split
      · exact ⟨_, rfl⟩
      · split <;> exact ⟨_, rfl⟩
  rcases L.attempt_cases hpos hround with ⟨result, heq, -⟩ | ⟨n, c, side, heq, hle, hc, hallows⟩
  · rw [heq] at hround
    exact Or.inl ⟨result, hround⟩
  · rw [heq] at hround
    exact Or.inr ⟨doubled padding side, hround, hpos.doubled side,
      shortfall_doubled_lt hpos (hle.trans (hm n c hc hallows))⟩

/-! ## 3. The check -/

/-- A word that the automaton takes is not refused. -/
theorem wordError?_eq_none (L : LockStep a g word Mirrors edge?) (hword : a.Takes word) :
    g.wordError? word = none := by
  rw [Grammar.wordError?_eq_none_iff, L.automaton_eq]
  exact hword

/-- How a check of a word ends that the automaton takes. -/
inductive Concludes (a : Automaton) (word : Word)
    (edge? : Padding → Configuration → Option Direction) (limit : Option Nat) :
    Except CheckError Verdict → Prop where
  /-- The machine makes one step more than the limit allows. -/
  | limited (k : Nat) (c : Configuration) (hlimit : limit = some k)
    (h : after? a (k + 1) (.ofWord a word) = some c) :
    Concludes a word edge? limit (.error (.stepLimit k))
  /-- The machine halts, and the verdict is that on the configuration. -/
  | halted (n : Nat) (c : Configuration) (trace : Trace)
    (h : after? a n (.ofWord a word) = some c) (hallows : Allows limit n)
    (hhalt : c.pending? a = none) : Concludes a word edge? limit (.ok (.ofHalt a word c trace))
  /-- The word or the run is too long for 64-bit sizes. -/
  | overflow (h : Overflows a limit word edge?) :
    Concludes a word edge? limit (.error (.fault .overflow))

/-- The first padding, if there is one, is on both sides. -/
theorem forLength_cases (length : Nat) :
    Padding.forLength length = .ok ⟨1, length + 2⟩ ∨
      (Padding.forLength length = .error .overflow ∧ maxSize < length + 2) := by
  unfold Padding.forLength fitSize
  split
  · exact Or.inl rfl
  · exact Or.inr ⟨rfl, by omega⟩

/-- **A check ends as the machine does**, unless a size leaves the 64-bit range. -/
theorem concludes_of_answers (L : LockStep a g word Mirrors edge?) (hword : a.Takes word)
    {result : Except CheckError Verdict} (h : g.Answers limit word result) :
    Concludes a word edge? limit result := by
  obtain ⟨fuel, h⟩ := h
  have hnone := L.wordError?_eq_none hword
  simp only [Grammar.check, hnone] at h
  rcases forLength_cases word.length with hfit | ⟨hfault, hlarge⟩
  · simp only [hfit] at h
    cases hloop : iterate (attempt g limit fuel word) fuel ⟨1, word.length + 2⟩ with
    | none =>
      rw [hloop] at h
      cases h
    | some settled =>
      rw [hloop] at h
      cases L.settles_of_iterate (positive_first word.length) hloop with
      | limited k c hlimit hc =>
        cases h
        exact .limited k c hlimit hc
      | halted n c padding d hc hallows hhalt hd =>
        obtain ⟨fuel', trace, hconclude⟩ := L.concluded hd
        have h₁ := Derivation.conclude_of_le (Nat.le_max_left fuel fuel') h
        have h₂ := Derivation.conclude_of_le (Nat.le_max_right fuel fuel') hconclude
        rw [h₁] at h₂
        cases h₂
        exact .halted n c trace hc hallows hhalt
      | overflow n c padding hc hallows hedge hlarge =>
        cases h
        exact .overflow (Or.inr ⟨n, c, padding, hc, hallows, hedge, hlarge⟩)
  · simp only [hfault] at h
    cases h
    exact .overflow (Or.inl hlarge)

/-- **A check of a word ends if the run of the machine does.** -/
theorem answers_of_bounded (L : LockStep a g word Mirrors edge?) (hword : a.Takes word) {m : Nat}
    (hm : Bounded a word limit m) : ∃ result, g.Answers limit word result := by
  have hnone := L.wordError?_eq_none hword
  rcases forLength_cases word.length with hfit | ⟨hfault, hlarge⟩
  · have hpos := positive_first word.length
    obtain ⟨more, settled, hloop⟩ := L.attempts_terminate hpos hm
    cases L.settles_of_iterate hpos hloop with
    | limited k c hlimit hc => exact ⟨_, Grammar.answers_of_attempts_error hnone hfit hloop⟩
    | overflow n c padding hc hallows hedge hlarge =>
      exact ⟨_, Grammar.answers_of_attempts_error hnone hfit hloop⟩
    | halted n c padding d hc hallows hhalt hd =>
      obtain ⟨fuel, trace, hconclude⟩ := L.concluded hd
      exact ⟨_, Grammar.answers_of_attempts hnone hfit hloop hconclude⟩
  · refine ⟨.error (.fault .overflow), 0, ?_⟩
    simp only [Grammar.check, hnone, hfault]

/-! ## 4. Runs that stay within the first padding -/

/-- **If a padding has room for the whole run, one attempt with it ends beside the configuration in
which the machine halts**, however long the run is. -/
theorem attempt_of_room (L : LockStep a g word Mirrors edge?) {n : Nat}
    (hc : after? a n (.ofWord a word) = some c) (hhalt : c.pending? a = none)
    (hallows : Allows limit n)
    (hroom : ∀ m c₁, after? a m (.ofWord a word) = some c₁ → edge? padding c₁ = none) :
    ∃ d d₁, Derivation.ofWord g word padding = .ok d ∧
      toHalt g limit (n + 1) d = some (.ok d₁) ∧ Mirrors padding d₁ c ∧
        attempt g limit (n + 1) word padding = some (.done (.ok d₁)) := by
  have hle : ∀ {m c₁}, after? a m (.ofWord a word) = some c₁ → m ≤ n :=
    fun h => Configuration.le_of_halted hc hhalt h
  obtain ⟨d, hgenerated, hd⟩ := L.generated padding
  have hbounded : Bounded a word limit n := fun _ _ h _ => hle h
  obtain ⟨result, hrun⟩ := L.toHalt_terminates hbounded hd (Nat.lt_succ_self n)
  cases L.stops_of_toHalt hd hrun with
  | limited k c₁ hlimit hc₁ =>
    have := hle hc₁
    have := hallows k hlimit
    omega
  | stuck m c₁ d₁ hc₁ hallows₁ hstuck hd₁ =>
    have hhalt₁ : c₁.pending? a = none := hstuck.resolve_right fun hedge => hedge (hroom m c₁ hc₁)
    -- a machine halts in one configuration only
    obtain rfl : m = n := Nat.le_antisymm (hle hc₁) (Configuration.le_of_halted hc₁ hhalt₁ hc)
    obtain rfl : c₁ = c := Option.some.inj (hc₁.symm.trans hc)
    have hmissing : missingSide? g d₁ = none := by
      rw [L.missing hd₁ hstuck, hhalt₁]
      rfl
    exact ⟨d, d₁, hgenerated, hrun, hd₁, by simp only [attempt, hgenerated, hrun, hmissing]⟩

end LockStep

end TapeGrammar
