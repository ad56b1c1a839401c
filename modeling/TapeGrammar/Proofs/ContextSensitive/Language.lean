import TapeGrammar.Proofs.ContextSensitive.Mirror

/-!
# The language of a context-sensitive grammar

As in an unrestricted grammar, a derivation need not keep to the three phases: the automaton may move
while the last cells are still to be generated, and letters may be recovered before that.  What can
be derived nevertheless are exactly the words on which the automaton passes a final state
(`generates_of_passesFinal`, `passesFinal_of_generates`).

The invariant has the same shape (`Sound`): a form is HONEST as long as no recovery production has
been applied, and DONE from then on.  What is different is the right marker.  As long as letters are
still to be laid there is no last cell, so that the words that a form can be completed to are longer
than what has been laid.
-/

namespace TapeGrammar.ContextSensitive

open TapeGrammar.Configuration (after? PassesFinal)

variable {a : Automaton} {left right : String} {v : Vocabulary} {word letters : Word}
  {c : Configuration} {p : Production} {t : Nat} {body form form' : Form}

/-! ## 1. Stages of the generation -/

/-- What is left of the generation once the state has been placed. -/
inductive Stage where
  /-- More letters are to be laid. -/
  | laying
  | finished

/-- The helper at the end of the form. -/
def Stage.tail : Stage → Form
  | .laying => [layLetters]
  | .finished => []

/-- The words that a form with these letters can be completed to. -/
def Stage.Completes (a : Automaton) (letters : Word) : Stage → Word → Prop
  | .laying, word =>
    ∃ rest, rest ≠ [] ∧ (∀ letter ∈ rest, letter ∈ a.inputs) ∧ word = letters ++ rest
  | .finished, word => word = letters

variable {stage : Stage}

/-- Every form can be completed. -/
theorem exists_completion (hne : letters ≠ []) (hletters : ∀ letter ∈ letters, letter ∈ a.inputs)
    (stage : Stage) : ∃ word, stage.Completes a letters word := by
  cases stage with
  | laying => exact ⟨letters ++ letters, letters, hne, hletters, rfl⟩
  | finished => exact ⟨letters, rfl⟩

/-- One more letter leaves fewer completions. -/
theorem completes_of_concat {letter : String} (hletter : letter ∈ a.inputs)
    (h : stage.Completes a (letters ++ [letter]) word) :
    Stage.laying.Completes a letters word := by
  cases stage with
  | laying =>
    obtain ⟨rest, -, hrest, rfl⟩ := h
    exact ⟨letter :: rest, List.cons_ne_nil _ _, List.forall_mem_cons.mpr ⟨hletter, hrest⟩, by simp⟩
  | finished =>
    obtain rfl : word = letters ++ [letter] := h
    exact ⟨[letter], List.cons_ne_nil _ _, List.forall_mem_singleton.mpr hletter, rfl⟩

/-- A completion is a word that the automaton takes, and begins with the letters. -/
theorem takes_of_completes (hne : letters ≠ []) (hletters : ∀ letter ∈ letters, letter ∈ a.inputs)
    (h : stage.Completes a letters word) : a.Takes word ∧ letters.length ≤ word.length := by
  cases stage with
  | laying =>
    obtain ⟨rest, -, hrest, rfl⟩ := h
    refine ⟨⟨by simp [hne], ?_⟩, by simp⟩
    intro letter hl
    rcases List.mem_append.mp hl with hl | hl
    · exact hletters letter hl
    · exact hrest letter hl
  | finished =>
    obtain rfl : word = letters := h
    exact ⟨⟨hne, hletters⟩, Nat.le_refl _⟩

theorem isHelper_tail (stage : Stage) : ∀ s ∈ stage.tail, IsHelper s := by
  cases stage with
  | laying => exact List.forall_mem_singleton.mpr (Or.inr rfl)
  | finished => exact fun s hs => absurd hs List.not_mem_nil

theorem length_tail_le (stage : Stage) : stage.tail.length ≤ 1 := by
  cases stage <;> decide

/-! ## 2. Where productions apply -/

/-- Transition and recovery productions have no helper on either side. -/
theorem sides_spec (ha : a.WellFormed) (hm : a.boundary = .markers left right)
    (hp : p ∈ transition a.entries (.ofAutomaton a left right) ∨
      p ∈ recovery a.finals.toList (.ofAutomaton a left right)) :
    p.left ≠ [] ∧ (∀ s ∈ p.left, ¬ IsHelper s) ∧ ∀ s ∈ p.right, ¬ IsHelper s := by
  have hone : ∀ s : Symbol, ¬ IsHelper s → ∀ s' ∈ [s], ¬ IsHelper s' :=
    fun s hs => List.forall_mem_singleton.mpr hs
  have htwo : ∀ s s' : Symbol, ¬ IsHelper s → ¬ IsHelper s' → ∀ s'' ∈ [s, s'], ¬ IsHelper s'' :=
    fun s s' hs hs' => List.forall_mem_cons.mpr ⟨hs, hone s' hs'⟩
  rcases hp with hp | hp
  · obtain ⟨q, x, move, letter, -, -, hshape⟩ := (mem_transition_iff ha hm).mp hp
    cases hshape with
    | leaveLeft trail z hx hdir hz =>
      exact ⟨List.cons_ne_nil _ _, hone _ (not_isHelper_carrying _),
        hone _ (not_isHelper_carrying _)⟩
    | leaveRight lead z hx hdir hz =>
      exact ⟨List.cons_ne_nil _ _, hone _ (not_isHelper_carrying _),
        hone _ (not_isHelper_carrying _)⟩
    | ontoRight lead hx hdir =>
      exact ⟨List.cons_ne_nil _ _, hone _ (not_isHelper_carrying _),
        hone _ (not_isHelper_carrying _)⟩
    | ontoLeft trail hx hdir =>
      exact ⟨List.cons_ne_nil _ _, hone _ (not_isHelper_carrying _),
        hone _ (not_isHelper_carrying _)⟩
    | stepRight lead trail z b hx hdir hz hb =>
      exact ⟨List.cons_ne_nil _ _, htwo _ _ (not_isHelper_carrying _) (not_isHelper_plain _ _),
        htwo _ _ (not_isHelper_plain _ _) (not_isHelper_carrying _)⟩
    | stepLeft lead trail z b hx hdir hz hb =>
      exact ⟨List.cons_ne_nil _ _, htwo _ _ (not_isHelper_plain _ _) (not_isHelper_carrying _),
        htwo _ _ (not_isHelper_carrying _) (not_isHelper_plain _ _)⟩
  · obtain ⟨letter, -, x, -, hshape⟩ := mem_recovery_iff.mp hp
    rcases hshape with ⟨q, -, place, rfl⟩ | ⟨b, -, ⟨trail, rfl⟩ | ⟨lead, rfl⟩⟩
    · exact ⟨List.cons_ne_nil _ _, hone _ (not_isHelper_carrying _), hone _ not_isHelper_terminal⟩
    · exact ⟨List.cons_ne_nil _ _, htwo _ _ not_isHelper_terminal (not_isHelper_plain _ _),
        htwo _ _ not_isHelper_terminal not_isHelper_terminal⟩
    · exact ⟨List.cons_ne_nil _ _, htwo _ _ (not_isHelper_plain _ _) not_isHelper_terminal,
        htwo _ _ not_isHelper_terminal not_isHelper_terminal⟩

/-- A recovery production has a composite with a final state on the left, or a letter. -/
theorem left_of_mem_recovery (hp : p ∈ recovery a.finals.toList v) :
    (∃ q x letter place, a.isFinal q = true ∧ x ∈ v.cells ∧
      p.left = [carrying v place q x letter]) ∨ ∃ letter, Symbol.terminal letter ∈ p.left := by
  obtain ⟨letter, -, x, hx, hshape⟩ := mem_recovery_iff.mp hp
  rcases hshape with ⟨q, hq, place, rfl⟩ | ⟨b, -, ⟨trail, rfl⟩ | ⟨lead, rfl⟩⟩
  · have hfinal := Std.ExtTreeSet.mem_iff_contains.mp (Std.ExtTreeSet.mem_toList.mp hq)
    exact Or.inl ⟨q, x, letter, place, hfinal, hx, rfl⟩
  · exact Or.inr ⟨letter, by simp⟩
  · exact Or.inr ⟨b, by simp⟩

/-! ## 3. Honest forms -/

/-- One more cell behind the row. -/
theorem encode_succ (m : Nat) : encode a v word (m + 1) c =
    encode a v word m c ++ [symbolAt a v word c (1 + m)] := row_succ_last _ _ _

/-- The form before its end encodes what the automaton has reached after `t` moves on every word that
the form can be completed to. -/
structure Honest (a : Automaton) (v : Vocabulary) (stage : Stage) (letters : Word) (t : Nat)
    (body : Form) : Prop where
  ne_nil : letters ≠ []
  letters_mem : ∀ letter ∈ letters, letter ∈ a.inputs
  reached : ∀ word, stage.Completes a letters word → ∃ c,
    after? a t (.ofWord a word) = some c ∧ Fenced a v word c ∧ anchor word c ≤ letters.length ∧
      (∀ i : Int, letters.length < i → i ≤ word.length → c.symbol a i = letterAt word i) ∧
        body = encode a v word letters.length c

/-- No symbol of an honest form is a helper before the end. -/
theorem Honest.not_isHelper (h : Honest a v stage letters t body) : ∀ s ∈ body, ¬ IsHelper s := by
  obtain ⟨word, hword⟩ := exists_completion h.ne_nil h.letters_mem stage
  obtain ⟨c, -, -, -, -, rfl⟩ := h.reached word hword
  exact not_isHelper_encode _

/-- The first cell, with the state on the left marker. -/
theorem honest_start (ha : a.WellFormed) (hm : a.boundary = .markers left right) {letter : String}
    (hletter : letter ∈ a.inputs) {trail : Bool}
    (htrail : ∀ word, stage.Completes a [letter] word → trail = decide ((1 : Int) = word.length)) :
    Honest a (.ofAutomaton a left right) stage [letter] 0
      [carrying (.ofAutomaton a left right) (.onLeft trail) a.start letter letter] := by
  have hne : [letter] ≠ [] := List.cons_ne_nil _ _
  have hmem : ∀ x ∈ [letter], x ∈ a.inputs := List.forall_mem_singleton.mpr hletter
  refine ⟨hne, hmem, fun word hword => ?_⟩
  obtain ⟨htakes, -⟩ := takes_of_completes hne hmem hword
  have hfirst : letterAt word 1 = letter := by
    cases stage with
    | laying =>
      obtain ⟨rest, -, -, rfl⟩ := hword
      rfl
    | finished =>
      obtain rfl : word = [letter] := hword
      rfl
  refine ⟨.ofWord a word, rfl, fenced_ofWord ha hm htakes.2, ?_, ?_, ?_⟩
  · rw [anchor, Configuration.head_ofWord, List.length_singleton]
    omega
  · intro i hi hi'
    rw [List.length_singleton] at hi
    exact symbol_ofWord_cell hm (by omega) hi'
  · rw [List.length_singleton, encode, row, row, symbolAt_ofWord_first hm htakes.1, hfirst,
      ← htrail word hword]

/-- A cell is laid behind the row, the last one or not. -/
theorem Honest.lay {stage' : Stage} {trail : Bool} {letter : String} (hletter : letter ∈ a.inputs)
    (htrail : ∀ word, stage'.Completes a (letters ++ [letter]) word →
      trail = decide (1 + (letters.length : Int) = word.length))
    (h : Honest a v .laying letters t body) :
    Honest a v stage' (letters ++ [letter]) t (body ++ [plain v false trail letter letter]) := by
  have hne : letters ++ [letter] ≠ [] := by simp
  have hmem : ∀ x ∈ letters ++ [letter], x ∈ a.inputs := by
    intro x hx
    rcases List.mem_append.mp hx with hx | hx
    · exact h.letters_mem x hx
    · rw [List.mem_singleton.mp hx]
      exact hletter
  refine ⟨hne, hmem, fun word hword => ?_⟩
  obtain ⟨c, hc, hfenced, hanchor, huntouched, rfl⟩ :=
    h.reached word (completes_of_concat hletter hword)
  have hle := (takes_of_completes hne hmem hword).2
  have hlength : (letters ++ [letter]).length = letters.length + 1 := by simp
  have hlast : letterAt word (1 + letters.length) = letter := by
    cases stage' with
    | laying =>
      obtain ⟨rest, -, -, rfl⟩ := hword
      rw [← List.append_cons]
      exact letterAt_append letters rest letter
    | finished =>
      obtain rfl : word = letters ++ [letter] := hword
      exact letterAt_append letters [] letter
  have hpos : 0 < letters.length := List.length_pos_iff.mpr h.ne_nil
  refine ⟨c, hc, hfenced, by omega, fun i hi hi' => huntouched i (by omega) hi', ?_⟩
  -- the automaton has not been at the new cell
  rw [hlength, encode_succ, symbolAt_of_ne (by omega) (by omega) (by omega),
    huntouched _ (by omega) (by omega), hlast, ← htrail word hword,
    decide_eq_false (by omega : ¬ (1 + (letters.length : Int) = 1))]

/-- **A transition production makes a move**, on all completions at once. -/
theorem Honest.step (ha : a.WellFormed) (hm : a.boundary = .markers left right)
    (h : Honest a (.ofAutomaton a left right) stage letters t body)
    (hp : p ∈ transition a.entries (.ofAutomaton a left right)) {before behind : Form}
    (hform : body ++ stage.tail = before ++ p.left ++ behind) :
    ∃ body', before ++ p.right ++ behind = body' ++ stage.tail ∧
      Honest a (.ofAutomaton a left right) stage letters (t + 1) body' := by
  obtain ⟨hne, hleft, -⟩ := sides_spec ha hm (Or.inl hp)
  obtain ⟨behind, rfl, hbody⟩ := Form.body_of_occurs hne hleft (isHelper_tail stage) hform
  refine ⟨before ++ p.right ++ behind, by simp, h.ne_nil, h.letters_mem, fun word hword => ?_⟩
  obtain ⟨htakes, hle⟩ := takes_of_completes h.ne_nil h.letters_mem hword
  obtain ⟨c, hc, hfenced, hanchor, huntouched, hencode⟩ := h.reached word hword
  rw [hencode] at hform
  obtain ⟨move, hmove, hend, rfl, rfl, hrest⟩ :=
    window_of_occurs ha hm htakes hfenced hle hanchor (isHelper_tail stage) hp hform
  obtain rfl := List.append_cancel_right hrest
  refine ⟨c.apply a move, Configuration.after?_succ hc hmove, hfenced.apply ha hm hmove, ?_, ?_,
    (encode_apply_eq_around htakes.1 hle hend).symm⟩
  · unfold windowEnd at hend
    omega
  · intro i hi hi'
    have hhead : i ≠ c.head := by
      unfold anchor at hanchor
      omega
    rw [Configuration.symbol_apply_of_ne hhead]
    exact huntouched i hi hi'

/-! ## 4. Forms that are done -/

/-- The automaton passes a final state on every word that the form can be completed to. -/
structure Done (a : Automaton) (v : Vocabulary) (stage : Stage) (body : Form) : Prop where
  not_isHelper : ∀ s ∈ body, ¬ IsHelper s
  passes : ∀ word, stage.Completes a ((reading a v).spelled body) word →
    PassesFinal a (.ofWord a word)

/-- **A recovery production shows that an honest form is final**, and leaves one that is done. -/
theorem Honest.recover (ha : a.WellFormed) (hm : a.boundary = .markers left right)
    (h : Honest a (.ofAutomaton a left right) stage letters t body)
    (hp : p ∈ recovery a.finals.toList (.ofAutomaton a left right)) {before behind : Form}
    (hform : body ++ stage.tail = before ++ p.left ++ behind) :
    ∃ body', before ++ p.right ++ behind = body' ++ stage.tail ∧
      Done a (.ofAutomaton a left right) stage body' := by
  have hv := clear_ofAutomaton ha hm
  obtain ⟨hne, hleft, hright⟩ := sides_spec ha hm (Or.inr hp)
  obtain ⟨body', hbody', hnone, hkept⟩ := (reading a _).exists_rewritten hne hleft hright
    (spelled_recovery ha hm hp) h.not_isHelper (isHelper_tail stage) hform
  have hspelled : (reading a (.ofAutomaton a left right)).spelled body' = letters := by
    obtain ⟨word, hword⟩ := exists_completion h.ne_nil h.letters_mem stage
    obtain ⟨htakes, hle⟩ := takes_of_completes h.ne_nil h.letters_mem hword
    obtain ⟨c, -, hfenced, -, -, rfl⟩ := h.reached word hword
    rw [hkept, spelled_encode hv htakes.2 hfenced hle]
    cases stage with
    | laying =>
      obtain ⟨rest, -, -, rfl⟩ := hword
      exact List.take_left
    | finished =>
      obtain rfl : word = letters := hword
      exact List.take_length
  refine ⟨body', hbody', hnone, ?_⟩
  rw [hspelled]
  intro word hword
  obtain ⟨htakes, hle⟩ := takes_of_completes h.ne_nil h.letters_mem hword
  obtain ⟨c, hc, hfenced, hanchor, -, rfl⟩ := h.reached word hword
  refine ⟨t, c, hc, ?_⟩
  rcases left_of_mem_recovery hp with ⟨q, x, letter, place, hfinal, hx, hq⟩ | ⟨letter, hletter⟩
  · -- the composite of the production is the one at the anchor
    have htail : ∀ s ∈ stage.tail, ¬ Carries a s :=
      fun s hs => not_carries_helper ha (isHelper_tail stage s hs)
    rw [hq, List.append_assoc, List.singleton_append] at hform
    obtain ⟨⟨-, hstate, -⟩, -⟩ := state_of_occurs hv htakes.2 htakes.1 hfenced hle hanchor htail
      (Automaton.isState_of_isFinal hfinal) hx hform
    rw [← hstate]
    exact hfinal
  · -- there is no letter in an honest form
    have hmem : Symbol.terminal letter ∈
        encode a (.ofAutomaton a left right) word letters.length c ++ stage.tail := by
      rw [hform]
      simp [hletter]
    rcases List.mem_append.mp hmem with hmem | hmem
    · exact absurd hmem (terminal_not_mem_encode letter)
    · exact absurd (isHelper_tail stage _ hmem) not_isHelper_terminal

/-- Transition and recovery productions keep a form done. -/
theorem Done.rewrite (ha : a.WellFormed) (hm : a.boundary = .markers left right)
    (h : Done a (.ofAutomaton a left right) stage body)
    (hp : p ∈ transition a.entries (.ofAutomaton a left right) ∨
      p ∈ recovery a.finals.toList (.ofAutomaton a left right)) {before behind : Form}
    (hform : body ++ stage.tail = before ++ p.left ++ behind) :
    ∃ body', before ++ p.right ++ behind = body' ++ stage.tail ∧
      Done a (.ofAutomaton a left right) stage body' := by
  obtain ⟨hne, hleft, hright⟩ := sides_spec ha hm hp
  have hsame : (reading a (.ofAutomaton a left right)).spelled p.left =
      (reading a (.ofAutomaton a left right)).spelled p.right := by
    rcases hp with hp | hp
    · exact spelled_transition ha hm hp
    · exact spelled_recovery ha hm hp
  obtain ⟨body', hbody', hnone, hkept⟩ := (reading a _).exists_rewritten hne hleft hright hsame
    h.not_isHelper (isHelper_tail stage) hform
  refine ⟨body', hbody', hnone, ?_⟩
  rw [hkept]
  exact h.passes

/-- A letter that is laid leaves fewer completions. -/
theorem Done.lay (hv : Clear a v) {stage' : Stage} {letter : String} (hletter : letter ∈ a.inputs)
    (hcell : letter ∈ v.cells) (trail : Bool) (h : Done a v .laying body) :
    Done a v stage' (body ++ [plain v false trail letter letter]) := by
  refine ⟨?_, ?_⟩
  · intro s hs
    rcases List.mem_append.mp hs with hs | hs
    · exact h.not_isHelper s hs
    · rw [List.mem_singleton.mp hs]
      exact not_isHelper_plain _ _
  · have hspelled : (reading a v).spelled (body ++ [plain v false trail letter letter]) =
        (reading a v).spelled body ++ [letter] := by
      rw [Reading.spelled_append, Reading.spelled_cons, hv.letter?_plain hcell hcell]
      rfl
    rw [hspelled]
    exact fun word hword => h.passes word (completes_of_concat hletter hword)

/-! ## 5. Soundness -/

/-- What is true of every form that can be derived. -/
inductive Sound (a : Automaton) (v : Vocabulary) : Form → Prop where
  /-- The state has not been placed. -/
  | start : Sound a v [placeState]
  /-- No recovery production has been applied. -/
  | honest (stage : Stage) (letters : Word) (t : Nat) (body : Form)
    (h : Honest a v stage letters t body) : Sound a v (body ++ stage.tail)
  | done (stage : Stage) (body : Form) (h : Done a v stage body) : Sound a v (body ++ stage.tail)

/-- The first production places the state. -/
theorem sound_of_start (ha : a.WellFormed) (hm : a.boundary = .markers left right)
    (hp : (Grammar.ofAutomaton a).Has p) {before behind : Form}
    (hform : [placeState] = before ++ p.left ++ behind) :
    Sound a (.ofAutomaton a left right) (before ++ p.right ++ behind) := by
  have hhelper : ∀ s ∈ p.left, IsHelper s := by
    intro s hs
    have hmem : s ∈ [placeState] := by
      rw [hform]
      simp [hs]
    exact Or.inl (List.mem_singleton.mp hmem)
  have hnone : ¬ (p ∈ transition a.entries (.ofAutomaton a left right) ∨
      p ∈ recovery a.finals.toList (.ofAutomaton a left right)) := by
    intro hp
    obtain ⟨hne, hleft, -⟩ := sides_spec ha hm hp
    obtain ⟨s, hs⟩ := List.exists_mem_of_ne_nil _ hne
    exact hleft s hs (hhelper s hs)
  rcases hp with hp | hp | hp
  · obtain ⟨letter, hletter, hshape⟩ := mem_generation_iff.mp ((mem_generation hm).mp hp)
    have hplace : ∀ new, [placeState] = before ++ [placeState] ++ behind →
        before ++ new ++ behind = new := by
      intro new h
      have hlength := congrArg List.length h
      simp only [List.length_append, List.length_singleton] at hlength
      have hbefore : before = [] := List.length_eq_zero_iff.mp (by omega)
      have hbehind : behind = [] := List.length_eq_zero_iff.mp (by omega)
      rw [hbefore, hbehind]
      simp
    rcases hshape with rfl | rfl | rfl | rfl
    · rw [hplace _ hform]
      refine .honest .finished [letter] 0 _ (honest_start ha hm hletter ?_)
      rintro word rfl
      rfl
    · rw [hplace _ hform]
      refine .honest .laying [letter] 0 _ (honest_start ha hm hletter ?_)
      rintro word ⟨rest, hrest, -, rfl⟩
      have hlength := List.length_pos_iff.mpr hrest
      rw [decide_eq_false]
      simp only [List.length_append, List.length_singleton]
      omega
    · exact absurd (List.mem_singleton.mp (hform ▸ by simp : layLetters ∈ [placeState])) (by decide)
    · exact absurd (List.mem_singleton.mp (hform ▸ by simp : layLetters ∈ [placeState])) (by decide)
  · exact absurd (Or.inl ((mem_transition hm).mp hp)) hnone
  · exact absurd (Or.inr ((mem_recovery hm).mp hp)) hnone

/-- **The generation goes on at the end of the form**, in the same way whatever is known about the
form before. -/
theorem exists_of_generation {P : Stage → Form → Prop} {state : String}
    (hhelper : ∀ stage body, P stage body → ∀ s ∈ body, ¬ IsHelper s)
    (hlay : ∀ body, ∀ letter ∈ v.inputs, P .laying body →
      P .laying (body ++ [plain v false false letter letter]))
    (hend : ∀ body, ∀ letter ∈ v.inputs, P .laying body →
      P .finished (body ++ [plain v false true letter letter]))
    (h : P stage body) (hp : p ∈ generation state v) {before behind : Form}
    (hform : body ++ stage.tail = before ++ p.left ++ behind) :
    ∃ stage' body', before ++ p.right ++ behind = body' ++ stage'.tail ∧ P stage' body' := by
  obtain ⟨letter, hletter, hshape⟩ := mem_generation_iff.mp hp
  have hplace : p.left ≠ [placeState] := by
    intro hleft
    rw [hleft] at hform
    obtain ⟨htail, -⟩ := Form.tail_of_occurs (Or.inl rfl : IsHelper placeState)
      (hhelper stage body h) (length_tail_le stage) hform
    cases stage with
    | laying => exact absurd htail (by decide)
    | finished => exact absurd htail (by decide)
  have hlaying : p.left = [layLetters] → stage = .laying ∧ before = body ∧ behind = [] := by
    intro hleft
    rw [hleft] at hform
    obtain ⟨htail, hbefore, hbehind⟩ := Form.tail_of_occurs (Or.inr rfl : IsHelper layLetters)
      (hhelper stage body h) (length_tail_le stage) hform
    cases stage with
    | laying => exact ⟨rfl, hbefore, hbehind⟩
    | finished => exact absurd htail (by decide)
  rcases hshape with rfl | rfl | rfl | rfl
  · exact absurd rfl hplace
  · exact absurd rfl hplace
  · obtain ⟨rfl, rfl, rfl⟩ := hlaying rfl
    exact ⟨.laying, _, by simp [Stage.tail], hlay before letter hletter h⟩
  · obtain ⟨rfl, rfl, rfl⟩ := hlaying rfl
    exact ⟨.finished, _, by simp [Stage.tail], hend before letter hletter h⟩

/-- An inner cell is laid behind an honest form. -/
theorem Honest.lay_inner {letter : String} (hletter : letter ∈ a.inputs)
    (h : Honest a v .laying letters t body) :
    Honest a v .laying (letters ++ [letter]) t (body ++ [plain v false false letter letter]) := by
  refine h.lay hletter ?_
  rintro word ⟨rest, hrest, -, rfl⟩
  have hlength := List.length_pos_iff.mpr hrest
  rw [decide_eq_false]
  simp only [List.length_append, List.length_singleton]
  omega

/-- The last cell is laid behind an honest form. -/
theorem Honest.lay_last {letter : String} (hletter : letter ∈ a.inputs)
    (h : Honest a v .laying letters t body) :
    Honest a v .finished (letters ++ [letter]) t (body ++ [plain v false true letter letter]) := by
  refine h.lay hletter ?_
  rintro word rfl
  rw [decide_eq_true]
  simp only [List.length_append, List.length_singleton]
  omega

/-- **Every replacement keeps a form sound.** -/
theorem Sound.rewrites (ha : a.WellFormed) (hm : a.boundary = .markers left right)
    (h : Sound a (.ofAutomaton a left right) form)
    (hstep : Rewrites (Grammar.ofAutomaton a).Has form form') :
    Sound a (.ofAutomaton a left right) form' := by
  have hv := clear_ofAutomaton ha hm
  obtain ⟨before, behind, p, hp⟩ := hstep
  generalize hform : before ++ p.left ++ behind = form at h
  cases h with
  | start => exact sound_of_start ha hm hp hform.symm
  | honest stage letters t body hbody =>
    rcases hp with hp | hp | hp
    · obtain ⟨stage', body', hform', letters, t, hhonest⟩ :=
        exists_of_generation (P := fun stage body => ∃ letters t,
          Honest a (.ofAutomaton a left right) stage letters t body)
          (fun stage body ⟨_, _, h⟩ => h.not_isHelper)
          (fun body letter hletter ⟨_, _, h⟩ => ⟨_, _, h.lay_inner hletter⟩)
          (fun body letter hletter ⟨_, _, h⟩ => ⟨_, _, h.lay_last hletter⟩)
          ⟨letters, t, hbody⟩ ((mem_generation hm).mp hp) hform.symm
      rw [hform']
      exact .honest stage' letters t body' hhonest
    · obtain ⟨body', hform', hhonest⟩ := hbody.step ha hm ((mem_transition hm).mp hp) hform.symm
      rw [hform']
      exact .honest stage letters (t + 1) body' hhonest
    · obtain ⟨body', hform', hdone⟩ := hbody.recover ha hm ((mem_recovery hm).mp hp) hform.symm
      rw [hform']
      exact .done stage body' hdone
  | done stage body hbody =>
    rcases hp with hp | hp
    · obtain ⟨stage', body', hform', hdone⟩ :=
        exists_of_generation (P := Done a (.ofAutomaton a left right))
          (fun stage body h => h.not_isHelper)
          (fun body letter hletter h => h.lay hv hletter (hv.input_mem_cells _ hletter) false)
          (fun body letter hletter h => h.lay hv hletter (hv.input_mem_cells _ hletter) true)
          hbody ((mem_generation hm).mp hp) hform.symm
      rw [hform']
      exact .done stage' body' hdone
    · have hp : p ∈ transition a.entries (.ofAutomaton a left right) ∨
          p ∈ recovery a.finals.toList (.ofAutomaton a left right) := by
        rcases hp with hp | hp
        · exact Or.inl ((mem_transition hm).mp hp)
        · exact Or.inr ((mem_recovery hm).mp hp)
      obtain ⟨body', hform', hdone⟩ := hbody.rewrite ha hm hp hform.symm
      rw [hform']
      exact .done stage body' hdone

/-- Every form that can be derived is sound. -/
theorem sound_of_derives (ha : a.WellFormed) (hm : a.boundary = .markers left right)
    (h : Derives (Grammar.ofAutomaton a).Has [placeState] form) :
    Sound a (.ofAutomaton a left right) form := by
  induction h with
  | refl => exact .start
  | tail _ hstep ih => exact ih.rewrites ha hm hstep

/-- **A word that is generated makes the automaton pass a final state.** -/
theorem passesFinal_of_generates (ha : a.WellFormed) (hm : a.boundary = .markers left right)
    (h : (Grammar.ofAutomaton a).Generates word) : PassesFinal a (.ofWord a word) := by
  rw [Grammar.Generates, start_eq hm] at h
  have hterminal : ∀ s ∈ word.map Symbol.terminal, ∃ letter, s = .terminal letter := by
    intro s hs
    obtain ⟨letter, -, rfl⟩ := List.mem_map.mp hs
    exact ⟨letter, rfl⟩
  generalize hform : word.map Symbol.terminal = form at h hterminal
  cases sound_of_derives ha hm h with
  | start =>
    obtain ⟨letter, hletter⟩ := hterminal placeState List.mem_cons_self
    cases hletter
  | honest stage letters t body hbody =>
    obtain ⟨completion, hcompletion⟩ := exists_completion hbody.ne_nil hbody.letters_mem stage
    obtain ⟨c, -, -, -, -, rfl⟩ := hbody.reached completion hcompletion
    have hlength : 0 <
        (encode a (.ofAutomaton a left right) completion letters.length c).length := by
      rw [encode, length_row]
      exact List.length_pos_iff.mpr hbody.ne_nil
    obtain ⟨s, hs⟩ := List.exists_mem_of_length_pos hlength
    obtain ⟨letter, rfl⟩ := hterminal s (List.mem_append_left _ hs)
    exact absurd hs (terminal_not_mem_encode letter)
  | done stage body hbody =>
    cases stage with
    | laying =>
      obtain ⟨letter, hletter⟩ := hterminal layLetters (List.mem_append_right _ List.mem_cons_self)
      cases hletter
    | finished =>
      refine hbody.passes word ?_
      show word = _
      rw [Stage.tail, List.append_nil] at hform
      rw [← hform, Reading.spelled_terminals]

/-! ## 6. Completeness -/

/-- The moves of a run can be made by transition productions. -/
theorem derives_of_after? (ha : a.WellFormed) (hm : a.boundary = .markers left right)
    (hword : a.Takes word) {n : Nat} (h : after? a n (.ofWord a word) = some c) :
    Fenced a (.ofAutomaton a left right) word c ∧
      Derives (· ∈ transition a.entries (.ofAutomaton a left right))
        (encode a (.ofAutomaton a left right) word word.length (.ofWord a word))
        (encode a (.ofAutomaton a left right) word word.length c) := by
  refine Configuration.after?_invariant
    (I := fun c => Fenced a (.ofAutomaton a left right) word c ∧
      Derives (· ∈ transition a.entries (.ofAutomaton a left right))
        (encode a (.ofAutomaton a left right) word word.length (.ofWord a word))
        (encode a (.ofAutomaton a left right) word word.length c))
    ?_ ⟨fenced_ofWord ha hm hword.2, .refl⟩ h
  rintro c move ⟨hfenced, hderives⟩ hmove
  have hend := windowEnd_le a hword.1 c move
  refine ⟨hfenced.apply ha hm hmove, hderives.tail ?_⟩
  rw [encode_eq_around hword.1 hend, encode_apply_eq_around hword.1 (Nat.le_refl _) hend]
  exact .replace _ _ _ (windowed_mem ha hm hword hfenced hmove)

/-- **A word on which the automaton passes a final state is generated.** -/
theorem generates_of_passesFinal (ha : a.WellFormed) (hm : a.boundary = .markers left right)
    (hword : a.Takes word) (h : PassesFinal a (.ofWord a word)) :
    (Grammar.ofAutomaton a).Generates word := by
  have hv := clear_ofAutomaton ha hm
  obtain ⟨n, c, hc, hfinal⟩ := h
  obtain ⟨d, hd, hmirrors⟩ := exists_mirrors_ofWord ha hm hword ⟨0, 0⟩
  obtain ⟨hfenced, hmoves⟩ := derives_of_after? ha hm hword hc
  let last : Derivation :=
    { traced := .ofForm (encode a (.ofAutomaton a left right) word word.length c),
      cursor := (anchor word c - 1).toNat, steps := n }
  obtain ⟨fuel, t, hrecover, hterminal⟩ :=
    recoverWord_encode (d := last) ha hm hword hfenced hfinal rfl rfl
  have hmoved : Derives (· ∈ (Grammar.ofAutomaton a).transition) d.form last.form := by
    rw [hmirrors.form_eq]
    exact hmoves.mono fun p hp => (mem_transition hm).mpr hp
  have hspelled : (reading a (.ofAutomaton a left right)).spelled last.form = word :=
    (spelled_encode hv hword.2 hfenced (Nat.le_refl _)).trans List.take_length
  exact Derivation.generates_of_phases _ hd hmoved
    (fun p hp => spelled_recovery ha hm ((mem_recovery hm).mp hp)) hrecover hterminal hspelled

/-! ## 7. The language -/

/-- **The grammar of a well-formed bounded automaton generates exactly the words on which the
automaton is in a final state at some time**, whether it halts there or not. -/
theorem generates_iff_entersFinal (ha : a.WellFormed) (hm : a.boundary = .markers left right)
    (hword : a.Takes word) :
    (Grammar.ofAutomaton a).Generates word ↔
      ∃ n c, after? a n (.ofWord a word) = some c ∧ a.isFinal c.state = true := by
  constructor
  · exact passesFinal_of_generates ha hm
  · exact generates_of_passesFinal ha hm hword

/-- An automaton that is in its final state from the first letter on, and leaves it on the right
marker. -/
def visitor : Automaton where
  alphabet := .ofList ["1", "@", "$"]
  tapeAlphabet := .ofList ["1", "x", "@", "$"]
  boundary := .markers "@" "$"
  start := "q0"
  finals := .ofList ["q1"]
  delta := .ofList [(Situation.mk "q0" "@", Move.mk "q0" "@" .right),
    (Situation.mk "q0" "1", Move.mk "q1" "x" .right),
    (Situation.mk "q1" "1", Move.mk "q1" "x" .right),
    (Situation.mk "q1" "$", Move.mk "q2" "$" .left)]

/-- The grammar of the visitor generates the number two, although the visitor halts in a state that
is not final. -/
theorem visitor_generates_two : (Grammar.ofAutomaton visitor).Generates ["1", "1"] ∧
    ∃ c, after? visitor 4 (.ofWord visitor ["1", "1"]) = some c ∧ c.pending? visitor = none ∧
      visitor.isFinal c.state = false := by
  have hfinal : (after? visitor 3 (.ofWord visitor ["1", "1"])).any
      (fun c => visitor.isFinal c.state) = true := by
    decide
  have hhalted : (after? visitor 4 (.ofWord visitor ["1", "1"])).any
      (fun c => c.pending? visitor = none ∧ visitor.isFinal c.state = false) = true := by
    decide
  obtain ⟨c, hc, hq⟩ := (Option.any_eq_true _ _).mp hfinal
  obtain ⟨c', hc', hq'⟩ := (Option.any_eq_true _ _).mp hhalted
  refine ⟨?_, c', hc', of_decide_eq_true hq'⟩
  exact (generates_iff_entersFinal (a := visitor) (by decide) rfl (by decide)).mpr ⟨3, c, hc, hq⟩

end TapeGrammar.ContextSensitive
