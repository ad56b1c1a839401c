import Mathlib.Logic.Function.Basic
import TapeGrammar.Proofs.Simulator
import TapeGrammar.Proofs.Trail

/-!
# The tape of a Turing machine as a function

A Turing machine works on a tape that gives every integer a symbol.  `Ideal` is that machine: it begins on
blanks, a word is loaded by taking a new tape with the word from 0 on, and a step changes the tape at the
position of the head.

The machine that keeps its tape in two arrays does the same (`tape_is_integer_indexed`).  A position that
no array reaches reads as the blank, and it makes no difference that arrays grow, that one of them is
filled up on the way, or that positions below zero are stored in reverse: a move changes what is read at
the head and nowhere else, which is all that the step of the ideal machine says.
-/

namespace TapeGrammar

/-! ## 1. The ideal machine -/

/-- A Turing machine at a moment of its run, with a symbol at every position. -/
structure Ideal where
  state : String
  cells : Int → String
  head : Int
  steps : Nat

namespace Ideal

/-- The machine in its start state on blanks. -/
def initial (a : Automaton) (blank : String) : Ideal := ⟨a.start, fun _ => blank, 0, 0⟩

/-- The machine in its start state on a word between blanks. -/
def ofWord (a : Automaton) (blank : String) (word : Word) : Ideal :=
  ⟨a.start, fun p => if 0 ≤ p then word.getD p.toNat blank else blank, 0, 0⟩

/-- Makes a move: writes, moves the head and enters the next state. -/
def apply (m : Ideal) (move : Move) : Ideal where
  state := move.next
  cells := Function.update m.cells m.head move.write
  head := match move.direction with
    | .left => m.head - 1
    | .right => m.head + 1
  steps := m.steps + 1

theorem cells_apply (m : Ideal) (move : Move) (p : Int) :
    (m.apply move).cells p = if p = m.head then move.write else m.cells p := Function.update_apply ..

/-- One step.  Nothing changes if no move is defined. -/
def step (a : Automaton) (m : Ideal) : Progress × Ideal :=
  match a.move? m.state (m.cells m.head) with
  | some move => (.moved, m.apply move)
  | none => (.halted, m)

/-- Puts a word on the tape.  Nothing changes if the word is refused. -/
def load (a : Automaton) (blank : String) (word : Word) (m : Ideal) : Except RunError Unit × Ideal :=
  match Configuration.wordError? a word with
  | some error => (.error error, m)
  | none => (.ok (), ofWord a blank word)

/-- How a machine that has halted ends its run. -/
def outcome (a : Automaton) (m : Ideal) : Outcome := ⟨m.state, m.steps, a.isFinal m.state⟩

end Ideal

/-- The ideal machine as a simulator. -/
def Simulator.integers (a : Automaton) (blank : String) (limit : Option Nat) : Simulator Ideal :=
  .ofSteps (Ideal.load a blank) (Ideal.step a) Ideal.steps (Ideal.outcome a) limit

/-! ## 2. What the arrays store -/

variable {a : Automaton} {blank : String} {c : Configuration} {m : Ideal} {word : Word} {move : Move}

/-- The machine is in the same state as the ideal one, and reads the same symbol at every position. -/
structure Stores (a : Automaton) (c : Configuration) (m : Ideal) : Prop where
  state_eq : c.state = m.state
  head_eq : c.head = m.head
  steps_eq : c.steps = m.steps
  cell?_eq : ∀ p : Int, c.cell? a p = some (m.cells p)

theorem Stores.read?_eq (h : Stores a c m) : c.read? a = some (m.cells m.head) := by
  rw [Configuration.read?, h.head_eq, h.cell?_eq]

theorem Stores.reads (h : Stores a c m) : (c.read? a).isSome = true := by
  rw [h.read?_eq]
  rfl

/-- Machines in the same state have the same move to make. -/
theorem Stores.pending?_eq (h : Stores a c m) : c.pending? a = a.move? m.state (m.cells m.head) := by
  rw [Configuration.pending?, h.read?_eq, h.state_eq, Option.bind_some]

/-- **A move keeps what the arrays store.** -/
theorem Stores.apply (h : Stores a c m) (move : Move) : Stores a (c.apply a move) (m.apply move) := by
  refine ⟨rfl, ?_, congrArg (· + 1) h.steps_eq, fun p => ?_⟩
  · show (match move.direction with
      | .left => c.head - 1
      | .right => c.head + 1) = _
    rw [h.head_eq]
    rfl
  · rw [Configuration.cell?_apply h.reads, Ideal.cells_apply, h.head_eq, h.cell?_eq]
    split <;> rfl

/-- A step keeps it. -/
theorem Stores.step (h : Stores a c m) :
    Simulator.Alike (Stores a) (c.step a) (m.step a) := by
  unfold Configuration.step Ideal.step
  rw [h.pending?_eq]
  cases a.move? m.state (m.cells m.head) with
  | none => exact ⟨rfl, h⟩
  | some move => exact ⟨rfl, h.apply move⟩

section

variable (hb : a.boundary = .blank blank)

include hb

theorem stores_initial : Stores a (.initial a) (.initial a blank) := by
  refine ⟨rfl, rfl, rfl, fun p => ?_⟩
  have hget : (Configuration.initial a).tape.get? p = none := by cases p <;> rfl
  rw [Configuration.cell?, hget, Automaton.blank?, hb]
  rfl

/-- A word that is loaded is stored from 0 on. -/
theorem stores_ofWord (word : Word) : Stores a (.ofWord a word) (.ofWord a blank word) := by
  refine ⟨Configuration.state_ofWord word, Configuration.head_ofWord word,
    Configuration.steps_ofWord word, fun p => ?_⟩
  have htape : (Configuration.ofWord a word).tape = .ofList word := by
    rw [Configuration.ofWord, hb]
  rw [Configuration.cell?, htape, Automaton.blank?, hb]
  cases p with
  | ofNat n =>
    have hget : (Tape.ofList word).get? (.ofNat n) = word[n]? := by simp [Tape.get?, Tape.ofList]
    have hcell : (Ideal.ofWord a blank word).cells (.ofNat n) = (word[n]?).getD blank := by
      simp [Ideal.ofWord]
    rw [hget, hcell]
    cases word[n]? <;> rfl
  | negSucc n => rfl

theorem Stores.load (h : Stores a c m) (word : Word) :
    Simulator.Alike (Stores a) (c.load a word) (m.load a blank word) := by
  unfold Configuration.load Ideal.load
  cases Configuration.wordError? a word with
  | some error => exact ⟨rfl, h⟩
  | none => exact ⟨rfl, stores_ofWord hb word⟩

theorem arrays_agree (limit : Option Nat) :
    Simulator.Agree (Stores a) (.arrays a limit) (.integers a blank limit) := by
  rw [Simulator.arrays_eq_ofSteps]
  refine Simulator.agree_ofSteps limit (fun c m h => h.step) (fun c m h => h.steps_eq)
    (fun c m h => ?_) (fun word c m h => h.load hb word)
  rw [Configuration.outcome, Configuration.isAccepted, Ideal.outcome, h.state_eq, h.steps_eq]

end

/-! ## 3. Every history -/

/-- A step changes what is read at the head only, however the arrays grow. -/
theorem Stores.cell?_step (h : Stores a c m) {p : Int} (hp : p ≠ c.head) :
    (c.step a).2.cell? a p = c.cell? a p := by
  unfold Configuration.step
  cases c.pending? a with
  | none => rfl
  | some move => exact (Configuration.cell?_apply h.reads p).trans (if_neg hp)

/-- **The two arrays are a tape indexed by the integers.**  A Turing machine that keeps its tape in two
arrays answers every sequence of calls like the ideal machine, a fresh one as well as one that has been
used.  It is left in the same state, with its head at the same position and the same number of steps, and
reads the same symbol at every position.  The next step halts in one if it does in the other, and no
position but the one under the head reads anything else afterwards. -/
theorem tape_is_integer_indexed (hb : a.boundary = .blank blank) (limit : Option Nat) (fuel : Nat)
    (calls : List Call) :
    Option.Rel
      (fun (answers, c) (answers', m) => answers = answers' ∧ Stores a c m ∧
        ((c.step a).1 = .halted ↔ (m.step a).1 = .halted) ∧
        ∀ p : Int, p ≠ c.head → (c.step a).2.cell? a p = c.cell? a p)
      ((Simulator.arrays a limit).calls? fuel calls (.initial a))
      ((Simulator.integers a blank limit).calls? fuel calls (.initial a blank)) := by
  have hsame := (arrays_agree hb limit).calls? fuel calls (stores_initial hb)
  generalize (Simulator.arrays a limit).calls? fuel calls (.initial a) = out,
    (Simulator.integers a blank limit).calls? fuel calls (.initial a blank) = out' at hsame
  cases hsame with
  | none => exact .none
  | some h =>
    obtain ⟨hanswers, hstores⟩ := h
    exact .some ⟨hanswers, hstores, by rw [hstores.step.1], fun p hp => hstores.cell?_step hp⟩

/-- A Turing machine that writes one more 1 to the left of a number. -/
def extender : Automaton where
  alphabet := .ofList ["1"]
  tapeAlphabet := .ofList ["1", "B"]
  boundary := .blank "B"
  start := "q0"
  finals := .ofList ["q1"]
  delta := .ofList [(Situation.mk "q0" "1", Move.mk "q0" "1" .left),
    (Situation.mk "q0" "B", Move.mk "q1" "1" .right)]

/-- The extender makes a step on the empty tape, refuses the empty word, runs on the number one, and makes
three steps on the number two.  The last of them halts, with a cell written left of 0. -/
theorem extender_is_integer_indexed : extender.boundary = .blank "B" ∧ ∃ answers m,
    (Simulator.arrays extender (some 5)).calls? 9
        [.step, .load [], .run ["1"], .load ["1", "1"], .step, .step, .step] (.initial extender) =
      some (answers, ⟨"q1", ⟨#["1", "1"], #["1"]⟩, 0, 2⟩) ∧
    (Simulator.integers extender "B" (some 5)).calls? 9
        [.step, .load [], .run ["1"], .load ["1", "1"], .step, .step, .step] (.initial extender "B") =
      some (answers, m) ∧
    answers.getLast? = some (.stepped .halted) ∧
    m.state = "q1" ∧ m.head = 0 ∧ m.steps = 2 ∧ m.cells (-1) = "1" ∧ m.cells (-2) = "B" := by
  have hb : extender.boundary = .blank "B" := rfl
  let calls : List Call := [.step, .load [], .run ["1"], .load ["1", "1"], .step, .step, .step]
  have harrays : (Simulator.arrays extender (some 5)).calls? 9 calls (.initial extender) =
      some ([.stepped .moved, .loaded (.error .emptyWord), .ran (.ok ⟨"q1", 2, true⟩), .loaded (.ok ()),
        .stepped .moved, .stepped .moved, .stepped .halted], ⟨"q1", ⟨#["1", "1"], #["1"]⟩, 0, 2⟩) := by
    decide
  have hsame := tape_is_integer_indexed hb (some 5) 9 calls
  rw [harrays] at hsame
  generalize (Simulator.integers extender "B" (some 5)).calls? 9 calls (.initial extender "B") = out
    at hsame ⊢
  cases hsame with
  | @some _ out h =>
    obtain ⟨_, m⟩ := out
    obtain ⟨rfl, hstores, -⟩ := h
    have hwritten := (hstores.cell?_eq (-1)).symm.trans (show _ = some "1" by decide)
    have hblank := (hstores.cell?_eq (-2)).symm.trans (show _ = some "B" by decide)
    exact ⟨hb, _, m, harrays, rfl, rfl, hstores.state_eq.symm, hstores.head_eq.symm,
      hstores.steps_eq.symm, Option.some.inj hwritten, Option.some.inj hblank⟩

end TapeGrammar
