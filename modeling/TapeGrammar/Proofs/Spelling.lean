import TapeGrammar.Proofs.ContextSensitive.Language
import TapeGrammar.Proofs.Unrestricted.Language

/-!
# What machine steps and recovery steps do to the word

A form of a grammar stands for a word at every moment, and the word can be read off its symbols alone: a
letter stands for itself, a helper or a token for nothing, and a composite for the letter that its cell
was generated from.  Where that letter is to be found depends on the grammar (`Automaton.spelling`).  In
an unrestricted grammar it is the first label of a cell.  In a context-sensitive grammar a state and
markers can stand on any side of it, and it is the last label that is neither of them.

Transition productions move the token and write on the tape, and recovery productions take the tape away.
None of them changes the word, wherever in a form it is applied, and so no sequence of them does
(`steps_keep_word`).
-/

namespace TapeGrammar

variable {a : Automaton} {blank left right : String} {p : Production}

/-! ## 1. The word of a form -/

/-- The letters that the symbols of the grammar of an automaton stand for. -/
def Automaton.spelling (a : Automaton) : Reading where
  letter?
    | .terminal letter => some letter
    | .nonTerminal [_] => none
    | .nonTerminal labels =>
      match a.boundary with
      | .blank _ =>
        match labels with
        | [origin, _] => if origin = Symbol.epsilon then none else some origin
        | _ => none
      | .markers _ _ => (labels.filter fun label => !(a.isState label || a.isMarker label)).getLast?
  terminal _ := rfl

/-- In the grammar of a Turing machine, a cell stands for its origin. -/
theorem Automaton.letter?_spelling_of_blank (hb : a.boundary = .blank blank) (s : Symbol) :
    a.spelling.letter? s = Unrestricted.reading.letter? s := by
  match s with
  | .terminal letter => rfl
  | .nonTerminal [] => simp only [spelling, hb, Unrestricted.reading]
  | .nonTerminal [_] => rfl
  | .nonTerminal [_, _] => simp only [spelling, hb, Unrestricted.reading]
  | .nonTerminal (_ :: _ :: _ :: _) => simp only [spelling, hb, Unrestricted.reading]

namespace ContextSensitive

variable {v : Vocabulary}

/-- In the grammar of a bounded automaton, a composite of several labels stands for the last of its
names. -/
theorem letter?_spelling_of_markers (hm : a.boundary = .markers left right) {labels : List String}
    {x letter : String} (hnames : names a (.ofAutomaton a left right) labels = [x, letter]) :
    a.spelling.letter? (.nonTerminal labels) = some letter := by
  have hfilter : (labels.filter fun label => !(a.isState label || a.isMarker label)) =
      [x, letter] := by
    rw [← hnames, names]
    refine List.filter_congr fun label _ => ?_
    simp only [Automaton.isMarker, hm, Vocabulary.ofAutomaton, Bool.or_assoc]
  -- two names take at least two labels
  rcases labels with _ | ⟨first, _ | ⟨second, rest⟩⟩
  · cases hfilter
  · have hle := List.length_filter_le (fun label => !(a.isState label || a.isMarker label)) [first]
    rw [hfilter] at hle
    exact absurd hle (by simp)
  · simp only [Automaton.spelling, hm, hfilter, List.getLast?_cons_cons, List.getLast?_singleton]

/-- **The last name of a composite is the letter that its cell was generated from.** -/
theorem Clear.shows_spelling (hm : a.boundary = .markers left right)
    (hv : Clear a (.ofAutomaton a left right)) : Shows a.spelling a (.ofAutomaton a left right) where
  letter?_plain hx hletter lead trail :=
    letter?_spelling_of_markers hm (hv.names_plain hx hletter lead trail)
  letter?_carrying hq hx hletter place :=
    letter?_spelling_of_markers hm (hv.names_carrying hq hx hletter place)

end ContextSensitive

/-! ## 2. Machine steps and recovery steps -/

/-- A production of the transition table or of the recovery table. -/
def Grammar.Works (g : Grammar) (p : Production) : Prop := p ∈ g.transition ∨ p ∈ g.recovery

/-- **A transition or recovery production spells the same on both sides.** -/
theorem spelled_of_works (ha : a.WellFormed) (hp : (Grammar.ofAutomaton a).Works p) :
    a.spelling.spelled p.left = a.spelling.spelled p.right := by
  cases hboundary : a.boundary with
  | blank blank =>
    have hsame := Reading.spelled_congr (Automaton.letter?_spelling_of_blank hboundary)
    rw [hsame, hsame]
    rcases hp with hp | hp
    · exact Unrestricted.spelled_transition ((Unrestricted.mem_transition hboundary).mp hp)
    · exact Unrestricted.spelled_recovery ((Unrestricted.mem_recovery hboundary).mp hp)
  | markers left right =>
    have hshows := (ContextSensitive.clear_ofAutomaton ha hboundary).shows_spelling hboundary
    rcases hp with hp | hp
    · exact hshows.spelled_transition ha hboundary ((ContextSensitive.mem_transition hboundary).mp hp)
    · exact hshows.spelled_recovery ha hboundary ((ContextSensitive.mem_recovery hboundary).mp hp)

/-- **No machine step and no recovery step changes the word.**  In any form whatever, an occurrence of the
left side of a transition or recovery production can be replaced by the right side, and the form spells
what it has spelled before; and so it is after any number of such replacements. -/
theorem steps_keep_word (ha : a.WellFormed) :
    (∀ p, (Grammar.ofAutomaton a).Works p →
      ∀ before behind, a.spelling.spelled (before ++ p.left ++ behind) =
        a.spelling.spelled (before ++ p.right ++ behind)) ∧
    ∀ form form', Derives (Grammar.ofAutomaton a).Works form form' →
      a.spelling.spelled form = a.spelling.spelled form' := by
  refine ⟨fun p hp before behind => ?_, fun form form' h => ?_⟩
  · simp only [Reading.spelled_append, spelled_of_works ha hp]
  · exact a.spelling.spelled_of_derives (fun p hp => spelled_of_works ha hp) h

set_option maxRecDepth 100000 in
/-- The head of the visitor goes from the first cell to the last one, in a form with other symbols around
the two.  The one cell is written, the other holds an `x`, and both still stand for a 1. -/
theorem visitor_keeps_word : ContextSensitive.visitor.WellFormed ∧
    ⟨[.nonTerminal ["@", "q0", "1", "1"], .nonTerminal ["x", "1", "$"]],
      [.nonTerminal ["@", "x", "1"], .nonTerminal ["q1", "x", "1", "$"]]⟩ ∈
        (Grammar.ofAutomaton ContextSensitive.visitor).transition ∧
    ContextSensitive.visitor.spelling.spelled
        [.terminal "z", .nonTerminal ["@", "q0", "1", "1"], .nonTerminal ["x", "1", "$"],
          .nonTerminal ["A2"]] = ["z", "1", "1"] ∧
    ContextSensitive.visitor.spelling.spelled
        [.terminal "z", .nonTerminal ["@", "x", "1"], .nonTerminal ["q1", "x", "1", "$"],
          .nonTerminal ["A2"]] = ["z", "1", "1"] := by
  have ha : ContextSensitive.visitor.WellFormed := by decide
  have hp : ⟨[.nonTerminal ["@", "q0", "1", "1"], .nonTerminal ["x", "1", "$"]],
      [.nonTerminal ["@", "x", "1"], .nonTerminal ["q1", "x", "1", "$"]]⟩ ∈
        (Grammar.ofAutomaton ContextSensitive.visitor).transition := by
    decide
  have hword : ContextSensitive.visitor.spelling.spelled
      [.terminal "z", .nonTerminal ["@", "q0", "1", "1"], .nonTerminal ["x", "1", "$"],
        .nonTerminal ["A2"]] = ["z", "1", "1"] := by
    decide
  exact ⟨ha, hp, hword,
    ((steps_keep_word ha).1 _ (.inl hp) [.terminal "z"] [.nonTerminal ["A2"]]).symm.trans hword⟩

end TapeGrammar
