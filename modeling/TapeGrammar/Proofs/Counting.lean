import TapeGrammar.Proofs.ContextSensitive.Language
import TapeGrammar.Proofs.Generation
import TapeGrammar.Proofs.Unrestricted.Language

/-!
# How many productions recovery takes

Recovery scans the row by position, and in an unrestricted grammar the row grows meanwhile.  How often a
production is applied can nevertheless be told from the configuration: in each kind of grammar there is
something to count that a transition production keeps, that a recovery production makes less by ONE, and
that letters have nothing of.  In an unrestricted grammar it is the labels of the composites: a cell and
a token have three, the two tokens that are left of them two.  In a context-sensitive one it is the
composites themselves.

So the recovery productions that turn a configuration into letters are as many as the configuration
counts (`Counts.length_of_terminal`).  That recovery does end with letters is what the scans are for; it
does from any row of cells with a final state in it, not only from those that a run reaches.
-/

namespace TapeGrammar

variable {a : Automaton} {g : Grammar} {word : Word} {padding : Padding} {q x letter : String}
  {d : Derivation} {t t' : TracedForm} {productions : List Production}

/-! ## 1. What recovery takes away -/

/-- A weight that transition productions keep, that every recovery production makes less by one, and
that letters do not have. -/
structure Counts (g : Grammar) (weight : Symbol → Nat) : Prop where
  terminal : ∀ letter, weight (.terminal letter) = 0
  transition : ∀ p ∈ g.transition, weigh weight p.left = weigh weight p.right
  recovery : ∀ p ∈ g.recovery, weigh weight p.left = weigh weight p.right + 1

namespace Counts

variable {weight : Symbol → Nat} (hc : Counts g weight)

include hc

theorem weigh_of_isTerminal {form : Form} (h : form.isTerminal = true) :
    weigh weight form = 0 := by
  induction form with
  | nil => rfl
  | cons s form ih =>
    simp only [Form.isTerminal, List.all_cons, Bool.and_eq_true] at h
    cases s with
    | terminal letter => rw [weigh_cons, hc.terminal, ih h.2]
    | nonTerminal labels => cases h.1

/-- The simulation keeps the weight. -/
theorem weigh_of_transition (h : Replays (· ∈ g.transition) t productions t') :
    weigh weight t'.form = weigh weight t.form := by
  have hweigh := h.weigh_eq weight
  rw [weigh_congr fun p hp => hc.transition p (h.allowed_of_mem p hp)] at hweigh
  omega

/-- **What recovery has applied and what is left add up** to what there was. -/
theorem weigh_of_recovery (h : Replays (· ∈ g.recovery) t productions t') :
    weigh weight t'.form + productions.length = weigh weight t.form := by
  have hweigh := h.weigh_eq weight
  rw [weigh_congr fun p hp => hc.recovery p (h.allowed_of_mem p hp), weigh_succ] at hweigh
  omega

/-- **If only letters are left, recovery has applied as many productions as there was weight.** -/
theorem length_of_terminal (h : Replays (· ∈ g.recovery) t productions t')
    (hterminal : t'.form.isTerminal = true) : productions.length = weigh weight t.form := by
  have hsum := hc.weigh_of_recovery h
  rw [hc.weigh_of_isTerminal hterminal] at hsum
  omega

end Counts

/-- Recovery from `d` in the state `q` ends with the letters of a word, after so many recovery
productions. -/
def RecoversIn (g : Grammar) (q : String) (d : Derivation) (word : Word) (count : Nat) : Prop :=
  ∃ fuel t productions, Derivation.recoverWord g fuel q d = some (.ok t) ∧
    t.form = word.map .terminal ∧ t.trace.steps = d.trace.steps ++ productions ∧
      (∀ p ∈ productions, p ∈ g.recovery) ∧ productions.length = count

/-- A configuration that is recovered leaves what it spells, after as many productions as it
weighs. -/
theorem recoversIn_of_recoverWord {weight : Symbol → Nat} (hc : Counts g weight) (r : Reading)
    (hkept : ∀ p ∈ g.recovery, r.spelled p.left = r.spelled p.right) {fuel : Nat}
    (h : Derivation.recoverWord g fuel q d = some (.ok t)) (hterminal : t.form.isTerminal = true) :
    RecoversIn g q d (r.spelled d.form) (weigh weight d.form) := by
  obtain ⟨productions, hreplays⟩ := Derivation.replays_of_recoverWord h
  refine ⟨fuel, t, productions, h, ?_, hreplays.steps_eq, hreplays.allowed_of_mem,
    hc.length_of_terminal hreplays hterminal⟩
  rw [r.eq_of_isTerminal hterminal, Derivation.form, r.spelled_of_derives hkept hreplays.derives]

/-! ## 2. Unrestricted grammars -/

namespace Unrestricted

variable {blank : String}

/-- The labels of a composite; a letter has none to count. -/
def labelCount : Symbol → Nat
  | .terminal _ => 0
  | .nonTerminal labels => labels.length

theorem counts (hb : a.boundary = .blank blank) : Counts (Grammar.ofAutomaton a) labelCount where
  terminal _ := rfl
  transition p hp := by
    obtain ⟨q, x, move, origin, -, -, hshape⟩ := mem_transition_iff.mp ((mem_transition hb).mp hp)
    rcases hshape with ⟨-, rfl⟩ | ⟨-, before, -, symbol, -, rfl⟩ <;> rfl
  recovery p hp := by
    obtain ⟨q, -, hshape⟩ := mem_recovery_iff.mp ((mem_recovery hb).mp hp)
    rcases hshape with rfl | ⟨origin, -, symbol, -, rfl | rfl⟩
    · rfl
    all_goals
      unfold passed
      split <;> rfl

/-- What the cells of a word with padding around it are generated from. -/
def paddedOrigins (word : Word) (padding : Padding) : List String :=
  List.replicate padding.left Symbol.epsilon ++ word ++
    List.replicate padding.right Symbol.epsilon

/-- The cells of some origins that hold some symbols. -/
def cellsOf (origins symbols : List String) : Form :=
  (origins.zip symbols).map fun (origin, symbol) => cell origin symbol

/-- **A form that encodes a configuration** in the state `q`: a cell for every letter of the word and
any number of padding cells on both sides, which hold any symbols of the tape alphabet, and the token
of the state at the cursor, before any of the cells or behind the last one. -/
def Encodes (a : Automaton) (word : Word) (padding : Padding) (q : String) (d : Derivation) : Prop :=
  ∃ symbols : List String, symbols.length = (paddedOrigins word padding).length ∧
    (∀ x ∈ symbols, x ∈ a.tapeAlphabet) ∧ d.cursor ≤ symbols.length ∧
      d.form = (cellsOf (paddedOrigins word padding) symbols).take d.cursor ++
        token q :: (cellsOf (paddedOrigins word padding) symbols).drop d.cursor

theorem length_paddedOrigins (word : Word) (padding : Padding) :
    (paddedOrigins word padding).length = padding.left + padding.right + word.length := by
  simp only [paddedOrigins, List.length_append, List.length_replicate]
  omega

/-- Every cell is known to the tables. -/
theorem isCell_cellsOf {row symbols : List String} (hrow : ∀ origin ∈ row, origin ∈ origins a)
    (hsymbols : ∀ x ∈ symbols, x ∈ a.tapeAlphabet) : ∀ s ∈ cellsOf row symbols, IsCell a s := by
  intro s hs
  obtain ⟨⟨origin, x⟩, hmem, rfl⟩ := List.mem_map.mp hs
  obtain ⟨horigin, hx⟩ := List.of_mem_zip hmem
  exact ⟨origin, hrow origin horigin, x, hsymbols x hx, rfl⟩

/-- Cells spell the letters among their origins. -/
theorem spelled_cellsOf {row symbols : List String} (hlength : symbols.length = row.length) :
    reading.spelled (cellsOf row symbols) = row.filter (· ≠ Symbol.epsilon) := by
  induction row generalizing symbols with
  | nil => rfl
  | cons origin row ih =>
    obtain ⟨x, symbols, rfl⟩ := List.exists_cons_of_length_eq_add_one hlength
    have hrest := ih (Nat.succ.inj hlength)
    simp only [cellsOf] at hrest ⊢
    rw [List.zip_cons_cons, List.map_cons, Reading.spelled_cons, hrest, letter?_cell]
    by_cases horigin : origin = Symbol.epsilon
    · simp [horigin]
    · simp [horigin]

/-- A word with padding around it spells the word. -/
theorem filter_paddedOrigins (hword : ∀ letter ∈ word, letter ≠ Symbol.epsilon)
    (padding : Padding) : (paddedOrigins word padding).filter (· ≠ Symbol.epsilon) = word := by
  simpa [paddedOrigins] using hword

/-- **Recovery from any configuration** in a final state leaves the word, with a production for every
label of the row. -/
theorem recoversIn_of_encodes (ha : a.WellFormed) (hb : a.boundary = .blank blank)
    (hword : a.Takes word) (hq : a.isFinal q = true) (h : Encodes a word padding q d) :
    RecoversIn (Grammar.ofAutomaton a) q d word
      (2 * (padding.left + padding.right + word.length) + 1) := by
  obtain ⟨symbols, hlength, hsymbols, hcursor, hform⟩ := h
  have hrow : ∀ origin ∈ paddedOrigins word padding, origin ∈ origins a := by
    intro origin horigin
    rw [mem_origins_iff]
    simp only [paddedOrigins, List.mem_append, List.mem_replicate] at horigin
    rcases horigin with (⟨-, h⟩ | h) | ⟨-, h⟩
    · exact Or.inr h
    · exact Or.inl (hword.2 origin h)
    · exact Or.inr h
  have hcells := isCell_cellsOf hrow hsymbols
  have hwidth : (cellsOf (paddedOrigins word padding) symbols).length =
      padding.left + padding.right + word.length := by
    rw [cellsOf, List.length_map, List.length_zip, hlength, Nat.min_self, length_paddedOrigins]
  obtain ⟨fuel, t, hrecover, hterminal⟩ := recoverWord_cells hb hq
    (fun s hs => hcells s (List.mem_of_mem_take hs))
    (fun s hs => hcells s (List.mem_of_mem_drop hs)) hform
    (by rw [List.length_take, hwidth, ← length_paddedOrigins, ← hlength, Nat.min_eq_left hcursor])
  have hrecovered := recoversIn_of_recoverWord (counts hb) reading
    (fun p hp => spelled_recovery ((mem_recovery hb).mp hp)) hrecover hterminal
  have hspelled : reading.spelled d.form = word := by
    rw [hform, Reading.spelled_append, Reading.spelled_cons, letter?_token, Option.toList_none,
      List.nil_append, ← Reading.spelled_append, List.take_append_drop, spelled_cellsOf hlength]
    exact filter_paddedOrigins (fun letter hletter => ha.input_ne_epsilon (hword.2 letter hletter))
      padding
  have hweight : weigh labelCount d.form =
      2 * (padding.left + padding.right + word.length) + 1 := by
    have hcount : weigh labelCount (cellsOf (paddedOrigins word padding) symbols) =
        (padding.left + padding.right + word.length) * 2 := by
      rw [← hwidth, cellsOf, weigh_map, List.length_map]
      exact weigh_const 2 _
    rw [← List.take_append_drop d.cursor (cellsOf _ _), weigh_append] at hcount
    have htoken : labelCount (token q) = 1 := rfl
    rw [hform, weigh_append, weigh_cons, htoken]
    omega
  rwa [hspelled, hweight] at hrecovered

end Unrestricted

/-! ## 3. Context-sensitive grammars -/

namespace ContextSensitive

variable {left right : String} {v : Vocabulary}

/-- A composite counts once, a letter not at all. -/
def compositeCount : Symbol → Nat
  | .terminal _ => 0
  | .nonTerminal _ => 1

theorem counts (ha : a.WellFormed) (hm : a.boundary = .markers left right) :
    Counts (Grammar.ofAutomaton a) compositeCount where
  terminal _ := rfl
  transition p hp := by
    obtain ⟨q, x, move, letter, -, -, hshape⟩ :=
      (mem_transition_iff ha hm).mp ((mem_transition hm).mp hp)
    cases hshape <;> rfl
  recovery p hp := by
    obtain ⟨letter, -, x, -, hshape⟩ := mem_recovery_iff.mp ((mem_recovery hm).mp hp)
    rcases hshape with ⟨q, -, place, rfl⟩ | ⟨b, -, ⟨trail, rfl⟩ | ⟨lead, rfl⟩⟩ <;> rfl

/-- The composite of the cell at a position of a row: at the cursor it carries the state in some
place, elsewhere it has the markers that belong to the first and to the last cell. -/
def layout (v : Vocabulary) (length cursor : Nat) (place : Place) (q : String) (i : Nat) :
    String × String → Symbol
  | (x, letter) =>
    if i = cursor then carrying v place q x letter
    else plain v (decide (i = 0)) (decide (i + 1 = length)) x letter

/-- **A form that encodes a configuration** in the state `q`: a composite for every letter of the word,
which hold any cell symbols, and the one at the cursor carries the state in any of the places. -/
def Encodes (a : Automaton) (v : Vocabulary) (word : Word) (q : String) (d : Derivation) : Prop :=
  ∃ (symbols : List String) (place : Place), symbols.length = word.length ∧
    (∀ x ∈ symbols, x ∈ a.cells) ∧ d.cursor < word.length ∧
      d.form = (symbols.zip word).mapIdx (layout v word.length d.cursor place q)

/-- The symbol at every position of an encoding. -/
theorem Encodes.exists_getElem (h : Encodes a v word q d) :
    d.form.length = word.length ∧ d.cursor < word.length ∧ ∃ place,
      ∀ (i : Nat) (hi : i < d.form.length) (hi' : i < word.length), ∃ x ∈ a.cells,
        d.form[i] = layout v word.length d.cursor place q i (x, word[i]) := by
  obtain ⟨symbols, place, hlength, hsymbols, hcursor, hform⟩ := h
  refine ⟨?_, hcursor, place, fun i hi hi' => ?_⟩
  · rw [hform, List.length_mapIdx, List.length_zip, hlength, Nat.min_self]
  · have hsymbol : i < symbols.length := hlength ▸ hi'
    refine ⟨symbols[i], hsymbols _ (List.getElem_mem hsymbol), ?_⟩
    simp only [hform, List.getElem_mapIdx, List.getElem_zip]

/-- An encoding has a composite for every letter. -/
theorem weigh_of_encodes (h : Encodes a v word q d) : weigh compositeCount d.form = word.length := by
  obtain ⟨hwidth, -, place, hat⟩ := h.exists_getElem
  have hone : ∀ s ∈ d.form, compositeCount s = 1 := by
    intro s hs
    obtain ⟨i, hi, rfl⟩ := List.mem_iff_getElem.mp hs
    obtain ⟨x, -, hsymbol⟩ := hat i hi (hwidth ▸ hi)
    rw [hsymbol, layout]
    split <;> rfl
  rw [weigh_congr hone, weigh_const, Nat.mul_one, hwidth]

section WellFormed

variable (ha : a.WellFormed) (hm : a.boundary = .markers left right) (hword : a.Takes word)
  (hq : a.isFinal q = true)

include ha hm hword hq

/-- An encoding spells its word. -/
theorem spelled_of_encodes (h : Encodes a (.ofAutomaton a left right) word q d) :
    (reading a (.ofAutomaton a left right)).spelled d.form = word := by
  have hv := clear_ofAutomaton ha hm
  obtain ⟨hwidth, -, place, hat⟩ := h.exists_getElem
  refine Reading.spelled_of_map _ (List.ext_getElem (by simpa using hwidth) fun i hi hi' => ?_)
  rw [List.length_map] at hi hi'
  obtain ⟨x, hx, hsymbol⟩ := hat i hi hi'
  have hl := hv.input_mem_cells word[i] (hword.2 _ (List.getElem_mem hi'))
  rw [List.getElem_map, List.getElem_map, hsymbol, layout]
  split
  · exact hv.letter?_carrying (Automaton.isState_of_isFinal hq) hx hl place
  · exact hv.letter?_plain hx hl _ _

/-- **Recovery from any configuration** in a final state leaves the word, with a production for every
cell. -/
theorem recoversIn_of_encodes (h : Encodes a (.ofAutomaton a left right) word q d) :
    RecoversIn (Grammar.ofAutomaton a) q d word word.length := by
  obtain ⟨hwidth, hcursor, place, hat⟩ := h.exists_getElem
  have hinput : ∀ (i : Nat) (hi : i < word.length), word[i] ∈ a.inputs :=
    fun i hi => hword.2 _ (List.getElem_mem hi)
  have hlt : d.cursor < d.form.length := hwidth ▸ hcursor
  have hbefore : ∀ s ∈ d.form.take d.cursor, IsEarlier (.ofAutomaton a left right) s := by
    intro s hs
    obtain ⟨i, hi, rfl⟩ := List.mem_take_iff_getElem.mp hs
    obtain ⟨x, hx, hplain⟩ := hat i (by omega) (by omega)
    rw [layout, if_neg (by omega), decide_eq_false (by omega : ¬ i + 1 = word.length)] at hplain
    exact ⟨_, x, hx, _, hinput i (by omega), hplain⟩
  have hbehind : ∀ s ∈ d.form.drop (d.cursor + 1), IsLater (.ofAutomaton a left right) s := by
    intro s hs
    obtain ⟨i, hi, rfl⟩ := List.mem_drop_iff_getElem.mp hs
    obtain ⟨x, hx, hplain⟩ := hat (d.cursor + 1 + i) (by omega) (by omega)
    rw [layout, if_neg (by omega), decide_eq_false (by omega : ¬ d.cursor + 1 + i = 0)] at hplain
    exact ⟨_, x, hx, _, hinput _ (by omega), hplain⟩
  obtain ⟨x, hx, hcarrying⟩ := hat d.cursor hlt hcursor
  rw [layout, if_pos rfl] at hcarrying
  have hsplit : d.form = d.form.take d.cursor ++
      [carrying (.ofAutomaton a left right) place q x word[d.cursor]] ++
        d.form.drop (d.cursor + 1) := by
    rw [← hcarrying, List.append_assoc, List.singleton_append, ← List.drop_eq_getElem_cons hlt,
      List.take_append_drop]
  obtain ⟨fuel, t, hrecover, hterminal⟩ := recoverWord_cells ha hm hbefore hbehind hq hx
    (hinput _ hcursor) hsplit (by rw [List.length_take, Nat.min_eq_left (Nat.le_of_lt hlt)]) q
  have hrecovered := recoversIn_of_recoverWord (counts ha hm) (reading a (.ofAutomaton a left right))
    (fun p hp => spelled_recovery ha hm ((mem_recovery hm).mp hp)) hrecover hterminal
  rwa [spelled_of_encodes ha hm hword hq h, weigh_of_encodes h] at hrecovered

end WellFormed

end ContextSensitive

/-! ## 4. Accepted words -/

/-- **An accepted trace in its three stretches**: what has been generated with the padding of the last
attempt, a transition production for each step that is reported, and recovery productions down to the
letters of the word. -/
structure Stretches (g : Grammar) (word : Word) (verdict : Verdict) where
  padding : Padding
  begun : Derivation
  moves : List Production
  halted : TracedForm
  recovered : List Production
  last : TracedForm
  generated : Derivation.ofWord g word padding = .ok begun
  moved : Replays (· ∈ g.transition) begun.traced moves halted
  length_moves : moves.length = verdict.halt.steps
  recovers : Replays (· ∈ g.recovery) halted recovered last
  form_last : last.form = word.map .terminal
  trace_last : last.trace = verdict.halt.trace

/-- The trace of an accepted word has three stretches. -/
theorem Grammar.Answers.exists_stretches {limit : Option Nat} {verdict : Verdict}
    (h : g.Answers limit word (.ok verdict)) (haccepted : verdict.isAccepted = true) :
    Nonempty (Stretches g word verdict) := by
  obtain ⟨fuel, h⟩ := h
  unfold Grammar.check at h
  split at h
  · cases h
  · split at h
    · cases h
    · split at h
      · cases h
      · cases h
      · rename_i d hd
        obtain ⟨padding, d₀, hgenerated, hhalted⟩ := Derivation.exists_of_attempts hd
        obtain ⟨-, hzero⟩ := Derivation.replays_of_ofWord hgenerated
        obtain ⟨moves, hmoves, hcount⟩ := Derivation.replays_of_toHalt hhalted
        obtain ⟨recovered, last, hrecovered, htrace, hsteps, -, hletters, -⟩ :=
          Derivation.replays_of_conclude h
        exact ⟨padding, d₀, moves, d.traced, recovered, last, hgenerated, hmoves, by omega,
          hrecovered, hletters haccepted, htrace⟩

namespace Stretches

variable {verdict : Verdict} (s : Stretches g word verdict)

/-- The trace is the three stretches one after the other. -/
theorem steps_eq : verdict.halt.trace.steps =
    (g.plan word s.padding).productions ++ s.moves ++ s.recovered := by
  obtain ⟨hplan, -⟩ := Derivation.replays_of_ofWord s.generated
  rw [← s.trace_last, s.recovers.steps_eq, s.moved.steps_eq, hplan.steps_eq]
  rfl

theorem length_trace : verdict.halt.trace.length =
    s.begun.trace.length + verdict.halt.steps + s.recovered.length := by
  rw [← Trace.length_steps, ← s.trace_last, s.recovers.steps_eq, s.moved.steps_eq,
    List.length_append, List.length_append, s.length_moves, Trace.length_steps]
  rfl

/-- Recovery applies as many productions as the initial configuration weighs. -/
theorem length_recovered {weight : Symbol → Nat} (hc : Counts g weight) :
    s.recovered.length = weigh weight s.begun.form := by
  have hterminal : s.last.form.isTerminal = true := by
    rw [s.form_last, Form.isTerminal, List.all_map]
    exact List.all_eq_true.mpr fun _ _ => rfl
  rw [hc.length_of_terminal s.recovers hterminal, hc.weigh_of_transition s.moved, Derivation.form]

end Stretches

/-- A grammar that answers with a verdict takes the word. -/
theorem Grammar.Answers.takes {limit : Option Nat} {verdict : Verdict}
    (h : g.Answers limit word (.ok verdict)) : g.automaton.Takes word := by
  obtain ⟨fuel, h⟩ := h
  unfold Grammar.check at h
  split at h
  · cases h
  · rename_i hnone
    exact Grammar.wordError?_eq_none_iff.mp hnone

/-- The initial configuration of an unrestricted grammar has two labels for each cell, and the
token. -/
theorem Unrestricted.weigh_of_generated {blank : String} (ha : a.WellFormed)
    (h : Generated a blank word padding d) : weigh labelCount d.form =
      2 * (padding.left + padding.right + word.length) + 1 := by
  have hstart : a.start ∉ Automaton.reservedNames :=
    (ha.state_distinct Automaton.isState_start).2
  rw [h.form_eq hstart]
  simp only [weigh_append, weigh_cons, weigh_replicate, weigh_map, labelCount, cell, token,
    List.length_cons, List.length_nil, weigh_const]
  omega

/-- The initial configuration of a context-sensitive grammar has a composite for each letter. -/
theorem ContextSensitive.weigh_of_generated {left right : String} (hne : word ≠ [])
    (h : Generated a left right word d) : weigh compositeCount d.form = word.length := by
  obtain ⟨first, rest, rfl⟩ := List.exists_cons_of_ne_nil hne
  rcases List.eq_nil_or_concat rest with rfl | ⟨inner, last, rfl⟩
  · rw [h.form_single first rfl]
    rfl
  · rw [h.form_more first inner last (by simp)]
    simp only [composite, compositeCount, weigh_append, weigh_cons, weigh_nil, weigh_map, weigh_const,
      List.concat_eq_append, List.length_cons, List.length_append, List.length_nil]
    omega

/-- **Recovery takes as many productions as the configuration has labels, or composites.**  From every
form that encodes a configuration in a final state, with the cursor on the state, recovery succeeds and
leaves the letters of the word.  It applies two productions for each cell and one more in an unrestricted
grammar, and one for each letter in a context-sensitive one.  So the length of an accepted trace can be
told from the word, the padding of the last attempt and the number of steps. -/
theorem recovery_exact (ha : a.WellFormed) :
    (∀ blank word padding q d, a.boundary = .blank blank → a.Takes word → a.isFinal q = true →
      Unrestricted.Encodes a word padding q d →
        RecoversIn (Grammar.ofAutomaton a) q d word
          (2 * (padding.left + padding.right + word.length) + 1)) ∧
    (∀ left right word q d, a.boundary = .markers left right → a.Takes word → a.isFinal q = true →
      ContextSensitive.Encodes a (.ofAutomaton a left right) word q d →
        RecoversIn (Grammar.ofAutomaton a) q d word word.length) ∧
    ∀ limit word verdict, (Grammar.ofAutomaton a).Answers limit word (.ok verdict) →
      verdict.isAccepted = true → ∃ padding moves recovered,
        verdict.halt.trace.steps =
          ((Grammar.ofAutomaton a).plan word padding).productions ++ moves ++ recovered ∧
        (∀ p ∈ moves, p ∈ (Grammar.ofAutomaton a).transition) ∧
        moves.length = verdict.halt.steps ∧
        (∀ p ∈ recovered, p ∈ (Grammar.ofAutomaton a).recovery) ∧
        (∀ blank, a.boundary = .blank blank →
          recovered.length = 2 * (padding.left + padding.right + word.length) + 1 ∧
          verdict.halt.trace.length =
            (padding.left + padding.right + word.length + 4) + verdict.halt.steps +
              (2 * (padding.left + padding.right + word.length) + 1)) ∧
        ∀ left right, a.boundary = .markers left right →
          recovered.length = word.length ∧
          verdict.halt.trace.length = 2 * word.length + verdict.halt.steps := by
  refine ⟨?_, ?_, ?_⟩
  · exact fun blank word padding q d hb hword hq h =>
      Unrestricted.recoversIn_of_encodes ha hb hword hq h
  · exact fun left right word q d hm hword hq h =>
      ContextSensitive.recoversIn_of_encodes ha hm hword hq h
  · intro limit word verdict h haccepted
    have hword : a.Takes word := by
      have htakes := h.takes
      rwa [Grammar.automaton_ofAutomaton] at htakes
    obtain ⟨s⟩ := h.exists_stretches haccepted
    refine ⟨s.padding, s.moves, s.recovered, s.steps_eq, s.moved.allowed_of_mem, s.length_moves,
      s.recovers.allowed_of_mem, fun blank hb => ?_, fun left right hm => ?_⟩
    · have hbegin := Unrestricted.generated_of_ofWord hb hword.2 s.generated
      have hrecovered := (s.length_recovered (Unrestricted.counts hb)).trans
        (Unrestricted.weigh_of_generated ha hbegin)
      exact ⟨hrecovered, by rw [s.length_trace, hbegin.length_trace, hrecovered]⟩
    · have hbegin := ContextSensitive.generated_of_ofWord hm hword s.generated
      have hrecovered := (s.length_recovered (ContextSensitive.counts ha hm)).trans
        (ContextSensitive.weigh_of_generated hword.1 hbegin)
      refine ⟨hrecovered, ?_⟩
      rw [s.length_trace, hbegin.length_trace, hrecovered]
      omega

/-- Configurations that no run reaches are recovered: the walker with its token between a written cell
and a padding cell, and the visitor on its right marker.  The number one is accepted by the walker after
a trace of so many productions. -/
theorem walker_recovery_exact :
    RecoversIn (Grammar.ofAutomaton Unrestricted.walker) "q1"
      ⟨.ofForm [Unrestricted.cell "1" "B", Unrestricted.token "q1",
        Unrestricted.cell Symbol.epsilon "1"], 1, 0⟩ ["1"] 5 ∧
    RecoversIn (Grammar.ofAutomaton ContextSensitive.visitor) "q1"
      ⟨.ofForm [ContextSensitive.composite ["@", "1", "1"],
        ContextSensitive.composite ["x", "1", "q1", "$"]], 1, 0⟩ ["1", "1"] 2 ∧
    ∃ (verdict : Verdict) (padding : Padding),
      (Grammar.ofAutomaton Unrestricted.walker).Answers none ["1"] (.ok verdict) ∧
      verdict.halt.trace.length =
        (padding.left + padding.right + 1 + 4) + verdict.halt.steps +
          (2 * (padding.left + padding.right + 1) + 1) := by
  refine ⟨?_, ?_, ?_⟩
  · exact (recovery_exact (a := Unrestricted.walker) (by decide)).1 "B" ["1"] ⟨0, 1⟩ "q1" _ rfl
      (by decide) (by decide) ⟨["B", "1"], rfl, by decide, by decide, rfl⟩
  · exact (recovery_exact (a := ContextSensitive.visitor) (by decide)).2.1 "@" "$" ["1", "1"] "q1" _
      rfl (by decide) (by decide) ⟨["1", "x"], .onRight false, rfl, by decide, by decide, rfl⟩
  · have hchecked : ((Grammar.ofAutomaton Unrestricted.walker).check none 20 ["1"]).any
        (fun result => match result with
          | .ok verdict => verdict.isAccepted
          | .error _ => false) = true := by
      decide
    obtain ⟨result, hcheck, haccepted⟩ := (Option.any_eq_true _ _).mp hchecked
    cases result with
    | error error => cases haccepted
    | ok verdict =>
      obtain ⟨padding, _, _, -, -, -, -, hlength, -⟩ :=
        (recovery_exact (a := Unrestricted.walker) (by decide)).2.2 none ["1"] verdict ⟨20, hcheck⟩
          haccepted
      exact ⟨verdict, padding, ⟨20, hcheck⟩, (hlength "B" rfl).2⟩

end TapeGrammar
