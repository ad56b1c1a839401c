import TapeGrammar.Proofs.Phases
import TapeGrammar.Proofs.Reading
import TapeGrammar.Proofs.WellFormed

/-!
# The productions of an unrestricted grammar

The tables are enumerated as lists; here is what is in them, and which symbols can be told apart.
A token and a helper are both composites of a single label, so that telling them apart takes a
well-formed automaton, in which no state bears the name of a helper.

Transition and recovery productions spell the same on both sides: the letters that they show and those
that their cells were generated from (`spelled_transition`, `spelled_recovery`).
-/

namespace TapeGrammar.Unrestricted

open Automaton (reservedNames)

variable {a : Automaton} {blank : String} {p : Production} {q x origin : String} {s : Symbol}

/-! ## 1. Symbols -/

/-- The token of a state of the automaton. -/
def IsToken (a : Automaton) (s : Symbol) : Prop := ∃ q, a.isState q = true ∧ s = token q

/-- One of the helpers. -/
def IsHelper (s : Symbol) : Prop := ∃ name ∈ reservedNames, s = token name

@[simp] theorem token_inj {q' : String} : token q = token q' ↔ q = q' := by
  simp [token]

@[simp] theorem cell_inj {origin' x' : String} :
    cell origin x = cell origin' x' ↔ origin = origin' ∧ x = x' := by
  simp [cell]

@[simp] theorem cell_ne_token : cell origin x ≠ token q := by
  simp [cell, token]

@[simp] theorem token_ne_cell : token q ≠ cell origin x := cell_ne_token.symm

@[simp] theorem terminal_ne_token : Symbol.terminal x ≠ token q := by
  simp [token]

theorem not_isToken_cell : ¬ IsToken a (cell origin x) := by
  rintro ⟨q, -, h⟩
  exact cell_ne_token h

theorem not_isHelper_cell : ¬ IsHelper (cell origin x) := by
  rintro ⟨q, -, h⟩
  exact cell_ne_token h

theorem not_isHelper_terminal : ¬ IsHelper (.terminal x) := by
  rintro ⟨q, -, h⟩
  exact terminal_ne_token h

theorem isHelper_token_iff : IsHelper (token q) ↔ q ∈ reservedNames := by
  simp [IsHelper]

/-- **No token is a helper.** -/
theorem not_isHelper_token (ha : a.WellFormed) (hq : a.isState q = true) :
    ¬ IsHelper (token q) := by
  rw [isHelper_token_iff]
  exact (ha.state_distinct hq).2

theorem isHelper_fillLeft : IsHelper fillLeft := ⟨"A0", by decide, rfl⟩

theorem isHelper_placeToken : IsHelper placeToken := ⟨"A1", by decide, rfl⟩

theorem isHelper_layLetters : IsHelper layLetters := ⟨"A2", by decide, rfl⟩

theorem isHelper_fillRight : IsHelper fillRight := ⟨"A3", by decide, rfl⟩

/-! ## 2. Tables -/

theorem mem_origins_iff : origin ∈ origins a ↔ origin ∈ a.inputs ∨ origin = Symbol.epsilon := by
  simp [origins]

/-- The generation productions, in the order in which a plan asks for them. -/
inductive GenerationRule (a : Automaton) (blank : String) : Production → Prop where
  | padLeft : GenerationRule a blank ⟨[fillLeft], [cell Symbol.epsilon blank, fillLeft]⟩
  | place : GenerationRule a blank ⟨[fillLeft], [placeToken]⟩
  | put : GenerationRule a blank ⟨[placeToken], [token a.start, layLetters]⟩
  | lay (letter : String) (h : letter ∈ a.inputs) :
    GenerationRule a blank ⟨[layLetters], [cell letter letter, layLetters]⟩
  | turn : GenerationRule a blank ⟨[layLetters], [fillRight]⟩
  | padRight : GenerationRule a blank ⟨[fillRight], [cell Symbol.epsilon blank, fillRight]⟩
  | finish : GenerationRule a blank ⟨[fillRight], []⟩

theorem mem_generation_iff : p ∈ generation a blank ↔ GenerationRule a blank p := by
  simp only [generation, List.mem_append, List.mem_cons, List.mem_map, List.not_mem_nil, or_false,
    or_assoc, @eq_comm _ p]
  constructor
  · rintro (rfl | rfl | rfl | ⟨letter, h, rfl⟩ | rfl | rfl | rfl)
    · exact .padLeft
    · exact .place
    · exact .put
    · exact .lay letter h
    · exact .turn
    · exact .padRight
    · exact .finish
  · rintro (_ | _ | _ | ⟨letter, h⟩ | _ | _ | _) <;> simp_all

/-- The productions of an entry are its moves over cells of all origins; a move to the left goes onto any
cell. -/
theorem mem_entryProductions_iff {at_ : Situation} {move : Move} :
    p ∈ entryProductions a at_ move ↔ ∃ origin ∈ origins a,
      (move.direction = .right ∧ p = stepRight at_ move origin) ∨
        (move.direction = .left ∧ ∃ before ∈ origins a, ∃ symbol ∈ a.tapeAlphabet,
          p = stepLeft at_ move origin before symbol) := by
  unfold entryProductions
  cases hdir : move.direction with
  | right => simp
  | left => simp [eq_comm]

/-- A transition production is a move, made over a cell of any origin, and if it goes left onto any
cell. -/
theorem mem_transition_iff : p ∈ transition a ↔ ∃ q x move origin, a.move? q x = some move ∧
    origin ∈ origins a ∧
      ((move.direction = .right ∧ p = stepRight ⟨q, x⟩ move origin) ∨
        (move.direction = .left ∧ ∃ before ∈ origins a, ∃ symbol ∈ a.tapeAlphabet,
          p = stepLeft ⟨q, x⟩ move origin before symbol)) := by
  simp only [transition, List.mem_flatMap, Prod.exists, mem_entryProductions_iff]
  constructor
  · rintro ⟨⟨q, x⟩, move, hentry, origin, horigin, hp⟩
    exact ⟨q, x, move, origin, Automaton.mem_entries_iff.mp hentry, horigin, hp⟩
  · rintro ⟨q, x, move, origin, hmove, horigin, hp⟩
    exact ⟨⟨q, x⟩, move, Automaton.mem_entries_of_move? hmove, origin, horigin, hp⟩

/-- A recovery production removes a final token, or lets it pass a cell on either side. -/
theorem mem_recovery_iff : p ∈ recovery a ↔ ∃ q, a.isFinal q = true ∧
    (p = ⟨[token q], []⟩ ∨ ∃ origin ∈ origins a, ∃ symbol ∈ a.tapeAlphabet,
      p = ⟨[cell origin symbol, token q], passed q origin⟩ ∨
        p = ⟨[token q, cell origin symbol], passed q origin⟩) := by
  simp only [recovery, finalProductions, List.mem_flatMap, List.mem_cons, List.not_mem_nil,
    or_false, Std.ExtTreeSet.mem_toList, Automaton.isFinal, Std.ExtTreeSet.mem_iff_contains]

section Grammar

/-- The grammar of a Turing machine. -/
theorem ofAutomaton_eq (hb : a.boundary = .blank blank) : Grammar.ofAutomaton a = {
    automaton := a
    generation := .ofList (generation a blank)
    transition := .ofList (transition a)
    recovery := .ofList (recovery a) } := by
  unfold Grammar.ofAutomaton
  rw [hb]

theorem kind_eq (hb : a.boundary = .blank blank) :
    (Grammar.ofAutomaton a).kind = .unrestricted := by
  rw [ofAutomaton_eq hb]
  simp [Grammar.kind, Automaton.kind, hb, GrammarKind.ofMachine]

theorem start_eq (hb : a.boundary = .blank blank) : (Grammar.ofAutomaton a).start = fillLeft := by
  rw [Grammar.start, kind_eq hb]
  rfl

theorem automaton_eq (hb : a.boundary = .blank blank) : (Grammar.ofAutomaton a).automaton = a := by
  rw [ofAutomaton_eq hb]

theorem mem_generation (hb : a.boundary = .blank blank) :
    p ∈ (Grammar.ofAutomaton a).generation ↔ p ∈ generation a blank := by
  rw [ofAutomaton_eq hb, Productions.mem_ofList]

theorem plan_eq (hb : a.boundary = .blank blank) (word : Word) (padding : Padding) :
    (Grammar.ofAutomaton a).plan word padding = plan a.start blank word padding := by
  simp only [Grammar.plan, automaton_eq hb, hb]

theorem GenerationRule.mem (hb : a.boundary = .blank blank) (h : GenerationRule a blank p) :
    p ∈ (Grammar.ofAutomaton a).generation :=
  (mem_generation hb).mpr (mem_generation_iff.mpr h)

theorem mem_transition (hb : a.boundary = .blank blank) :
    p ∈ (Grammar.ofAutomaton a).transition ↔ p ∈ transition a := by
  rw [ofAutomaton_eq hb, Productions.mem_ofList]

theorem mem_recovery (hb : a.boundary = .blank blank) :
    p ∈ (Grammar.ofAutomaton a).recovery ↔ p ∈ recovery a := by
  rw [ofAutomaton_eq hb, Productions.mem_ofList]

end Grammar

/-! ## 3. What a form spells -/

/-- A cell stands for the letter that it was generated from, if there is one. -/
def reading : Reading where
  letter?
    | .terminal letter => some letter
    | .nonTerminal [origin, _] => if origin = Symbol.epsilon then none else some origin
    | .nonTerminal _ => none
  terminal _ := rfl

@[simp] theorem letter?_token : reading.letter? (token q) = none := rfl

theorem letter?_cell :
    reading.letter? (cell origin x) = if origin = Symbol.epsilon then none else some origin := rfl

/-- A transition production keeps the origins of its cells. -/
theorem spelled_transition (hp : p ∈ transition a) :
    reading.spelled p.left = reading.spelled p.right := by
  obtain ⟨q, x, move, origin, -, -, h⟩ := mem_transition_iff.mp hp
  rcases h with ⟨-, rfl⟩ | ⟨-, before, -, symbol, -, rfl⟩
  · simp [stepRight, Reading.spelled_cons, letter?_cell]
  · simp [stepLeft, Reading.spelled_cons, letter?_cell]

theorem spelled_passed (q origin x : String) :
    reading.spelled (passed q origin) = reading.spelled [cell origin x] := by
  unfold passed
  split
  · rename_i h
    simp [Reading.spelled_cons, letter?_cell, h]
  · rename_i h
    simp only [Reading.spelled_cons, letter?_token, letter?_cell, if_neg h]
    rfl

/-- A recovery production shows the letter of the cell that it removes. -/
theorem spelled_recovery (hp : p ∈ recovery a) :
    reading.spelled p.left = reading.spelled p.right := by
  obtain ⟨q, -, h⟩ := mem_recovery_iff.mp hp
  rcases h with rfl | ⟨origin, -, symbol, -, rfl | rfl⟩
  · rfl
  · rw [spelled_passed q origin symbol]
    simp [Reading.spelled_cons]
  · rw [spelled_passed q origin symbol]
    simp [Reading.spelled_cons]

end TapeGrammar.Unrestricted
