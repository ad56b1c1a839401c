import TapeGrammar.Proofs.ContextSensitive.Language

/-!
# A bounded automaton stays on its tape

The tape of a bounded automaton is the word between the two markers, and the machine has neither a blank
to read outside nor a reason to go there: the inspections see to it that a move on a marker writes the
marker again and turns back, and that no move writes a marker anywhere else.

The shape of the tape after any number of steps is `Enclosed`.  What carries the induction is `Fenced`,
which a derivation needs as well, and with it that nothing is written left of the left marker.
-/

namespace TapeGrammar

variable {a : Automaton} {left right : String} {word : Word} {c : Configuration} {move : Move}

/-! ## 1. So many steps -/

/-- **What one move keeps, so many steps keep.** -/
theorem Configuration.stepTimes_invariant {I : Configuration → Prop}
    (hmove : ∀ c move, I c → c.pending? a = some move → I (c.apply a move)) (n : Nat)
    (hinv : I c) : I (c.stepTimes a n).2 := by
  induction n generalizing c with
  | zero => exact hinv
  | succ n ih =>
    unfold stepTimes step
    cases hp : c.pending? a with
    | none => exact hinv
    | some move =>
      have hnext := hmove c move hinv hp
      by_cases hn : n = 0
      · simpa only [hn, if_true] using hnext
      · simpa only [hn, if_false] using ih hnext

/-! ## 2. The tape of a bounded automaton -/

open ContextSensitive (Fenced fenced_ofWord visitor)

/-- The configuration has the markers around as many cells as the word has letters, nothing beyond them,
and its head on one of these cells or on a marker. -/
structure Enclosed (a : Automaton) (left right : String) (word : Word) (c : Configuration) :
    Prop where
  size_right : c.tape.right.size = word.length + 2
  /-- Nothing is stored at a negative position. -/
  size_left : c.tape.left.size = 0
  left_marker : c.cell? a 0 = some left
  right_marker : c.cell? a (word.length + 1) = some right
  inner : ∀ p : Int, 1 ≤ p → p ≤ word.length → ∃ symbol ∈ a.cells, c.cell? a p = some symbol
  outer : ∀ p : Int, p < 0 ∨ word.length + 1 < p → c.cell? a p = none
  head_nonneg : 0 ≤ c.head
  head_le : c.head ≤ word.length + 1
  reads : (c.read? a).isSome = true

/-- **A machine that cannot leave its tape halts only for lack of a move.** -/
theorem Enclosed.halted_iff (h : Enclosed a left right word c) :
    (c.step a).1 = .halted ↔ ∃ symbol, c.read? a = some symbol ∧ a.move? c.state symbol = none := by
  obtain ⟨symbol, hread⟩ := Option.isSome_iff_exists.mp h.reads
  rw [Configuration.step_halted_iff, Configuration.pending?, hread, Option.bind_some]
  constructor
  · exact fun hnone => ⟨symbol, rfl, hnone⟩
  · rintro ⟨_, ⟨⟩, hnone⟩
    exact hnone

/-- A fence with nothing behind it encloses the machine. -/
theorem ContextSensitive.Fenced.enclosed (hm : a.boundary = .markers left right)
    (h : Fenced a (.ofAutomaton a left right) word c) (hleft : c.tape.left = #[]) :
    Enclosed a left right word c := by
  have hblank : a.blank? = none := by simp [Automaton.blank?, hm]
  refine ⟨h.size_eq, by rw [hleft]; rfl, ?_, ?_, fun p hp hp' => ?_, fun p hp => ?_, h.head_nonneg,
    h.head_le, ?_⟩
  · rw [h.cell?_eq (Int.le_refl 0) (by omega), h.symbol_left]
    rfl
  · rw [h.cell?_eq (by omega) (Int.le_refl _), h.symbol_right]
    rfl
  · exact ⟨c.symbol a p, h.symbol_mem p hp hp', h.cell?_eq (by omega) (by omega)⟩
  · have hget : c.tape.get? p = none := by
      cases p with
      | ofNat n =>
        have hn : c.tape.right.size ≤ n := by
          rw [h.size_eq]
          simp only [Int.ofNat_eq_natCast] at hp
          omega
        exact Array.getElem?_eq_none hn
      | negSucc n =>
        show c.tape.left[n]? = none
        rw [hleft]
        rfl
    rw [Configuration.cell?, hget, hblank]
    rfl
  · rw [Configuration.read?, h.cell?_eq h.head_nonneg h.head_le]
    rfl

/-- **A bounded automaton never leaves or damages its tape.**  A word that it takes is put on its tape,
whatever was there before.  After any number of steps there are the two markers, as many cells between them
as the word has letters, each with a symbol of the tape alphabet that is no marker, and nothing else; the
head is on one of them, and if the machine halts then because no move is defined for the symbol that it
reads. -/
theorem steps_stay_enclosed (ha : a.WellFormed) (hm : a.boundary = .markers left right)
    (hword : a.Takes word) (c : Configuration) :
    ∃ loaded, c.load a word = (.ok (), loaded) ∧ ∀ n : Nat,
      Enclosed a left right word (loaded.stepTimes a n).2 ∧
        (((loaded.stepTimes a n).2.step a).1 = .halted ↔
          ∃ symbol, (loaded.stepTimes a n).2.read? a = some symbol ∧
            a.move? (loaded.stepTimes a n).2.state symbol = none) := by
  have hload : c.load a word = (.ok (), .ofWord a word) := by
    rw [Configuration.load, Configuration.wordError?_eq_none_iff.mpr hword]
  let Inv : Configuration → Prop := fun c =>
    Fenced a (.ofAutomaton a left right) word c ∧ c.tape.left = #[]
  have hstart : Inv (.ofWord a word) := by
    refine ⟨fenced_ofWord ha hm hword.2, ?_⟩
    simp [Configuration.ofWord, hm, Tape.ofList]
  have hmove : ∀ c move, Inv c → c.pending? a = some move → Inv (c.apply a move) := by
    rintro c move ⟨hfenced, hleft⟩ hp
    exact ⟨hfenced.apply ha hm hp, (hfenced.size_apply move).2.trans hleft⟩
  refine ⟨_, hload, fun n => ?_⟩
  obtain ⟨hfenced, hleft⟩ := Configuration.stepTimes_invariant hmove n hstart
  have henclosed := hfenced.enclosed hm hleft
  exact ⟨henclosed, henclosed.halted_iff⟩

/-- The visitor rewrites the number two, turns back on the right marker and halts between the markers,
having read a symbol. -/
theorem visitor_stays_enclosed :
    (visitor.WellFormed ∧ visitor.boundary = .markers "@" "$" ∧ visitor.Takes ["1", "1"]) ∧
    ∃ loaded c, (Configuration.initial visitor).load visitor ["1", "1"] = (.ok (), loaded) ∧
      (loaded.stepTimes visitor 4).2 = c ∧ c.tape.right = #["@", "x", "x", "$"] ∧
      Enclosed visitor "@" "$" ["1", "1"] c ∧
      ∃ symbol, c.read? visitor = some symbol ∧ visitor.move? c.state symbol = none := by
  have ha : visitor.WellFormed := by decide
  have hword : visitor.Takes ["1", "1"] := by decide
  obtain ⟨loaded, hload, hsteps⟩ := steps_stay_enclosed ha rfl hword (.initial visitor)
  obtain rfl : Configuration.ofWord visitor ["1", "1"] = loaded := congrArg Prod.snd hload
  obtain ⟨henclosed, hhalted⟩ := hsteps 4
  exact ⟨⟨ha, rfl, hword⟩, _, _, hload, rfl, by decide, henclosed, hhalted.mp (by decide)⟩

end TapeGrammar
