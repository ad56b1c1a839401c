import TapeGrammar.Proofs.ContextSensitive.Check
import TapeGrammar.Proofs.Headroom
import TapeGrammar.Proofs.Planning
import TapeGrammar.Proofs.Trace
import TapeGrammar.Proofs.Unrestricted.Mirror

/-!
# Generation

The plan for a word is written down apart from the generation table, and it is carried out by
replacing leftmost occurrences.  Two things could go wrong: the plan could ask for a production that
the table lacks, or for a symbol that is not there.

Neither happens, whatever the names of the automaton are.  Every step of a plan leaves the helper
behind that the next step replaces, so there is always an occurrence, though with a state by the name
of a helper it may not be the intended one (section 1).  If the names of the helpers are kept free, there
is a single occurrence, and what is generated is the initial configuration.  A context-sensitive
grammar needs no condition: its states only ever stand in composites of several labels, and the
helpers have one.
-/

namespace TapeGrammar

variable {a : Automaton} {g : Grammar} {word : Word} {padding : Padding}

/-! ## 1. Plans that are never stuck -/

/-- A symbol of the form can always be replaced. -/
theorem TracedForm.exists_apply_of_mem {t : TracedForm} {s : Symbol} (h : s ∈ t.form)
    (right : Form) : ∃ t', t.apply [s] right = .applied t' ∧ ∀ s' ∈ right, s' ∈ t'.form := by
  obtain ⟨before, behind, hform, hbefore⟩ := List.eq_append_cons_of_mem h
  refine ⟨_, apply_of_not_mem (by rw [hform]; simp : t.form = before ++ [s] ++ behind) hbefore right,
    fun s' hs' => ?_⟩
  exact List.mem_append_left _ (List.mem_append_right _ hs')

/-- How many productions a plan asks for. -/
theorem Plan.length_productions (plan : Plan) :
    plan.productions.length = weigh PlanStep.times plan := by
  have h := plan.weigh_productions fun _ => 1
  rw [weigh_const] at h
  simpa using h

namespace Derivation

variable {plan plan' : Plan} {s s' s'' : Symbol} {right : Form} {t t' : TracedForm}

/-- A plan that has been carried out asks for productions of the table only. -/
theorem mem_of_followPlan (h : followPlan g plan t = .ok t') :
    ∀ step ∈ plan, step.production ∈ g.generation := by
  induction plan generalizing t with
  | nil => exact fun _ hstep => absurd hstep List.not_mem_nil
  | cons step plan ih =>
    unfold followPlan at h
    split at h
    · rename_i hmem
      split at h
      · cases h
      · exact List.forall_mem_cons.mpr ⟨hmem, ih h⟩
    · cases h

theorem followPlan_of_ofWord {d : Derivation} (h : ofWord g word padding = .ok d) :
    followPlan g (g.plan word padding) (.ofForm [g.start]) = .ok d.traced := by
  simp only [ofWord] at h
  split at h
  · cases h
  · rename_i t ht
    cases h
    exact ht

/-- What is known of a plan holds of the derivation that has carried it out. -/
theorem form_of_ofWord {d : Derivation} {form : Form}
    (hcarries : Carries g (g.plan word padding) [g.start] form) (h : ofWord g word padding = .ok d) :
    d.form = form := by
  obtain ⟨t, ht, hform⟩ := hcarries (.ofForm [g.start]) rfl
  rw [followPlan_of_ofWord h] at ht
  cases ht
  exact hform

/-- Generation applies what the plan asks for. -/
theorem length_trace_of_ofWord {d : Derivation} (h : ofWord g word padding = .ok d) :
    d.trace.length = (g.plan word padding).productions.length := by
  obtain ⟨hreplays, -⟩ := replays_of_ofWord h
  rw [← Trace.length_steps, trace, hreplays.steps_eq, TracedForm.ofForm, Trace.steps_empty,
    List.nil_append]

/-- A plan can be carried out wherever `s` occurs, and where it ends `s'` occurs. -/
def Hands (g : Grammar) (plan : Plan) (s s' : Symbol) : Prop :=
  ∀ t : TracedForm, s ∈ t.form → ∃ t', followPlan g plan t = .ok t' ∧ s' ∈ t'.form

theorem Hands.append (h : Hands g plan s s') (h' : Hands g plan' s' s'') :
    Hands g (plan ++ plan') s s'' := by
  intro t ht
  obtain ⟨t', ht', hs'⟩ := h t ht
  obtain ⟨t'', ht'', hs''⟩ := h' t' hs'
  exact ⟨t'', by rw [followPlan_append ht', ht''], hs''⟩

/-- Steps that keep a symbol can follow each other in any number. -/
theorem hands_of_forall (h : ∀ step ∈ plan, Hands g [step] s s) : Hands g plan s s := by
  induction plan with
  | nil => exact fun t ht => ⟨t, rfl, ht⟩
  | cons step plan ih =>
    exact (h step (by simp)).append (ih fun step hstep => h step (by simp [hstep]))

/-- A production that keeps its symbol can be applied any number of times. -/
theorem hands_repeated (hmem : (⟨[s], right⟩ : Production) ∈ g.generation) (hs : s ∈ right)
    (times : Nat) : Hands g [.repeated s right times] s s := by
  intro t ht
  suffices h : ∃ t', applyTimes ⟨[s], right⟩ times t = .ok t' ∧ s ∈ t'.form by
    obtain ⟨t', ht', hs'⟩ := h
    exact ⟨t', by simp only [followPlan, PlanStep.repeated, if_pos hmem, ht'], hs'⟩
  induction times generalizing t with
  | zero => exact ⟨t, rfl, ht⟩
  | succ times ih =>
    obtain ⟨next, hnext, hright⟩ := TracedForm.exists_apply_of_mem ht right
    obtain ⟨t', ht', hs'⟩ := ih next (hright s hs)
    exact ⟨t', by simp only [applyTimes, hnext, ht'], hs'⟩

/-- A symbol is replaced once. -/
theorem followPlan_single (hmem : (⟨[s], right⟩ : Production) ∈ g.generation) (ht : s ∈ t.form) :
    ∃ t', followPlan g [.single s right] t = .ok t' ∧ ∀ s' ∈ right, s' ∈ t'.form := by
  obtain ⟨t', ht', hright⟩ := TracedForm.exists_apply_of_mem ht right
  refine ⟨t', ?_, hright⟩
  simp only [followPlan, PlanStep.single, PlanStep.repeated, if_pos hmem, applyTimes, ht']

theorem hands_single (hmem : (⟨[s], right⟩ : Production) ∈ g.generation) (hs' : s' ∈ right) :
    Hands g [.single s right] s s' := by
  intro t ht
  obtain ⟨t', ht', hright⟩ := followPlan_single hmem ht
  exact ⟨t', ht', hright s' hs'⟩

end Derivation

/-! ## 2. Unrestricted grammars -/

namespace Unrestricted

open TapeGrammar.Derivation (Hands hands_single hands_repeated)

variable {blank : String} {d : Derivation}

/-- **An unrestricted plan is never stuck**, whatever the states are called. -/
theorem exists_followPlan (hb : a.boundary = .blank blank)
    (hword : ∀ letter ∈ word, letter ∈ a.inputs) (padding : Padding) {t : TracedForm}
    (ht : fillLeft ∈ t.form) :
    ∃ t', Derivation.followPlan (Grammar.ofAutomaton a) (plan a.start blank word padding) t =
      .ok t' := by
  have hfill : Hands (Grammar.ofAutomaton a) _ fillLeft fillLeft :=
    hands_repeated (GenerationRule.padLeft.mem hb) (by simp) padding.left
  have hplace : Hands (Grammar.ofAutomaton a) _ fillLeft placeToken :=
    hands_single (GenerationRule.place.mem hb) (by simp)
  have hput : Hands (Grammar.ofAutomaton a) _ placeToken layLetters :=
    hands_single (GenerationRule.put.mem hb) (by simp)
  have hlay : Hands (Grammar.ofAutomaton a)
      (word.map fun letter => .single layLetters [cell letter letter, layLetters])
      layLetters layLetters := by
    refine Derivation.hands_of_forall fun step hstep => ?_
    obtain ⟨letter, hletter, rfl⟩ := List.mem_map.mp hstep
    exact hands_single ((GenerationRule.lay letter (hword letter hletter)).mem hb) (by simp)
  have hturn : Hands (Grammar.ofAutomaton a) _ layLetters fillRight :=
    hands_single (GenerationRule.turn.mem hb) (by simp)
  have hfill' : Hands (Grammar.ofAutomaton a) _ fillRight fillRight :=
    hands_repeated (GenerationRule.padRight.mem hb) (by simp) padding.right
  have hall := (hfill.append (hplace.append hput)).append (hlay.append (hturn.append hfill'))
  obtain ⟨t₁, ht₁, hlast⟩ := hall t ht
  obtain ⟨t₂, ht₂, -⟩ := Derivation.followPlan_single (GenerationRule.finish.mem hb) hlast
  have hrun := (Derivation.followPlan_append ht₁).trans ht₂
  exact ⟨t₂, by simpa [plan] using hrun⟩

/-- What generation makes: the cells of the word between padding cells, with the token of the start
state before the first cell of the word, where the cursor is.  The form is only this one if the start
state does not bear the name of a helper. -/
structure Generated (a : Automaton) (blank : String) (word : Word) (padding : Padding)
    (d : Derivation) : Prop where
  length_trace : d.trace.length = padding.left + padding.right + word.length + 4
  cursor_eq : d.cursor = padding.left
  form_eq : a.start ∉ Automaton.reservedNames →
    d.form = List.replicate padding.left (cell Symbol.epsilon blank) ++
      token a.start :: (word.map fun letter => cell letter letter) ++
        List.replicate padding.right (cell Symbol.epsilon blank)
  token_at : a.start ∉ Automaton.reservedNames → d.form[d.cursor]? = some (token a.start)

/-- A plan asks for a production for every cell, and for four more. -/
theorem length_plan (state blank : String) (word : Word) (padding : Padding) :
    (plan state blank word padding).productions.length =
      padding.left + padding.right + word.length + 4 := by
  rw [Plan.length_productions]
  simp only [plan, PlanStep.single, PlanStep.repeated, weigh_append, weigh_cons, weigh_nil, weigh_map,
    weigh_const]
  omega

theorem generated_of_ofWord (hb : a.boundary = .blank blank)
    (hword : ∀ letter ∈ word, letter ∈ a.inputs)
    (h : Derivation.ofWord (Grammar.ofAutomaton a) word padding = .ok d) :
    Generated a blank word padding d := by
  have hlength : d.trace.length = padding.left + padding.right + word.length + 4 := by
    rw [Derivation.length_trace_of_ofWord h, plan_eq hb, length_plan]
  have hcursor : d.cursor = padding.left := by
    rw [Derivation.cursor_of_ofWord h, kind_eq hb, GrammarKind.firstCursor]
  have hform : a.start ∉ Automaton.reservedNames → d.form =
      List.replicate padding.left (cell Symbol.epsilon blank) ++
        token a.start :: (word.map fun letter => cell letter letter) ++
          List.replicate padding.right (cell Symbol.epsilon blank) := by
    intro hstart
    have hcarries := carries_plan (mt isHelper_token_iff.mp hstart) hb hword padding
    rw [← plan_eq hb, ← start_eq hb] at hcarries
    exact (Derivation.form_of_ofWord hcarries h).trans (encode_ofWord hb padding.left padding.right)
  refine ⟨hlength, hcursor, hform, fun hstart => ?_⟩
  rw [hform hstart, hcursor, List.append_assoc, List.getElem?_append_right (by simp)]
  simp

end Unrestricted

/-! ## 3. Context-sensitive grammars -/

namespace ContextSensitive

variable {left right : String} {d : Derivation}

/-- The encoding of the beginning of a run on a word of one letter. -/
theorem encode_ofWord_single (hm : a.boundary = .markers left right) (letter : String) :
    encode a (.ofAutomaton a left right) [letter] 1 (.ofWord a [letter]) =
      [composite [a.start, left, letter, letter, right]] := by
  rw [encode, row, symbolAt_ofWord_first hm (List.cons_ne_nil _ _)]
  rfl

/-- The encoding of the beginning of a run on a longer word. -/
theorem encode_ofWord (hm : a.boundary = .markers left right) (first last : String) (inner : Word) :
    encode a (.ofAutomaton a left right) (first :: (inner ++ [last])) (inner.length + 2)
        (.ofWord a (first :: (inner ++ [last]))) =
      composite [a.start, left, first, first] :: (inner.map fun letter => composite [letter, letter])
        ++ [composite [last, last, right]] := by
  have hlength : (first :: (inner ++ [last])).length = inner.length + 2 := by simp
  have hinner : row (symbolAt a (.ofAutomaton a left right) (first :: (inner ++ [last]))
      (.ofWord a (first :: (inner ++ [last])))) 2 inner.length =
        inner.map fun letter => composite [letter, letter] := by
    refine List.ext_getElem? fun i => ?_
    rcases Nat.lt_or_ge i inner.length with hlt | hge
    · have hpos : ((2 : Int) + i - 1).toNat = i + 1 := by omega
      rw [getElem?_row _ _ hlt, symbolAt_ofWord_later hm (by omega) (by omega),
        decide_eq_false (by omega), letterAt, hpos, List.getElem?_cons_succ,
        List.getElem?_append_left hlt, List.getElem?_map, List.getElem?_eq_getElem hlt]
      rfl
    · rw [List.getElem?_eq_none (by simpa using hge), List.getElem?_eq_none (by simpa using hge)]
  have hlast : symbolAt a (.ofAutomaton a left right) (first :: (inner ++ [last]))
      (.ofWord a (first :: (inner ++ [last]))) (2 + inner.length) =
        composite [last, last, right] := by
    have hpos : ((2 : Int) + inner.length - 1).toNat = inner.length + 1 := by omega
    rw [symbolAt_ofWord_later hm (by omega) (by omega), decide_eq_true (by omega), letterAt, hpos,
      List.getElem?_cons_succ, List.getElem?_concat_length]
    rfl
  rw [encode, row, symbolAt_ofWord_first hm (List.cons_ne_nil _ _), decide_eq_false (by omega),
    row_succ_last]
  show _ :: (row _ 2 _ ++ _) = _
  rw [hinner]
  show _ :: (_ ++ [symbolAt _ _ _ _ (2 + _)]) = _
  rw [hlast]
  rfl

/-- What generation makes: one composite for a word of one letter, and otherwise a first cell, the
inner cells and a last cell.  The state is in the first composite, where the cursor is. -/
structure Generated (a : Automaton) (left right : String) (word : Word) (d : Derivation) :
    Prop where
  length_trace : d.trace.length = word.length
  cursor_eq : d.cursor = 0
  form_single : ∀ letter, word = [letter] →
    d.form = [composite [a.start, left, letter, letter, right]]
  form_more : ∀ first inner last, word = first :: (inner ++ [last]) →
    d.form = composite [a.start, left, first, first] ::
      (inner.map fun letter => composite [letter, letter]) ++ [composite [last, last, right]]
  state_at : ∃ labels, d.form[d.cursor]? = some (composite (a.start :: labels))

/-- A plan asks for as many productions as the word has letters. -/
theorem length_plan (state left right : String) (word : Word) :
    (plan state left right word).productions.length = word.length := by
  have htail : ∀ rest, weigh PlanStep.times (planTail right rest) = rest.length := by
    intro rest
    induction rest with
    | nil => rfl
    | cons letter rest ih =>
      cases rest with
      | nil => rfl
      | cons next rest =>
        show 1 + weigh PlanStep.times (planTail right (next :: rest)) = _
        rw [ih]
        exact Nat.add_comm _ _
  rw [Plan.length_productions]
  match word with
  | [] => rfl
  | [letter] => rfl
  | first :: next :: rest =>
    show 1 + weigh PlanStep.times (planTail right (next :: rest)) = _
    rw [htail]
    exact Nat.add_comm _ _

theorem generated_of_ofWord (hm : a.boundary = .markers left right) (hword : a.Takes word)
    (h : Derivation.ofWord (Grammar.ofAutomaton a) word padding = .ok d) :
    Generated a left right word d := by
  have hlength : d.trace.length = word.length := by
    rw [Derivation.length_trace_of_ofWord h, plan_eq hm, length_plan]
  have hcursor : d.cursor = 0 := by
    rw [Derivation.cursor_of_ofWord h, kind_eq hm, GrammarKind.firstCursor]
  have hform : d.form = encode a (.ofAutomaton a left right) word word.length (.ofWord a word) := by
    have hcarries := carries_plan hm hword
    rw [← plan_eq hm word padding, ← start_eq hm] at hcarries
    exact Derivation.form_of_ofWord hcarries h
  have hsingle : ∀ letter, word = [letter] →
      d.form = [composite [a.start, left, letter, letter, right]] := by
    rintro letter rfl
    exact hform.trans (encode_ofWord_single hm letter)
  have hmore : ∀ first inner last, word = first :: (inner ++ [last]) →
      d.form = composite [a.start, left, first, first] ::
        (inner.map fun letter => composite [letter, letter]) ++ [composite [last, last, right]] := by
    rintro first inner last rfl
    rw [hform, ← encode_ofWord hm first last inner]
    simp
  refine ⟨hlength, hcursor, hsingle, hmore, ?_⟩
  rw [hcursor]
  obtain ⟨first, rest, rfl⟩ := List.exists_cons_of_ne_nil hword.1
  rcases List.eq_nil_or_concat rest with rfl | ⟨inner, last, rfl⟩
  · rw [hsingle first rfl]
    exact ⟨_, rfl⟩
  · rw [hmore first inner last (by simp)]
    exact ⟨_, rfl⟩

end ContextSensitive

/-! ## 4. Any automaton -/

/-- **Generation never fails**, neither for want of a production nor for want of an occurrence. -/
theorem exists_ofWord (hword : a.Takes word) (padding : Padding) :
    ∃ d, Derivation.ofWord (Grammar.ofAutomaton a) word padding = .ok d := by
  suffices h : ∃ t, Derivation.followPlan (Grammar.ofAutomaton a)
      ((Grammar.ofAutomaton a).plan word padding) (.ofForm [(Grammar.ofAutomaton a).start]) = .ok t by
    obtain ⟨t, ht⟩ := h
    exact ⟨{ Derivation.initial (Grammar.ofAutomaton a) padding with traced := t },
      by simp only [Derivation.ofWord, Derivation.initial, ht]⟩
  cases hboundary : a.boundary with
  | blank blank =>
    rw [Unrestricted.plan_eq hboundary, Unrestricted.start_eq hboundary]
    exact Unrestricted.exists_followPlan hboundary hword.2 padding (List.mem_singleton.mpr rfl)
  | markers left right =>
    rw [ContextSensitive.plan_eq hboundary, ContextSensitive.start_eq hboundary]
    obtain ⟨t, ht, -⟩ := ContextSensitive.carries_plan hboundary hword
      (.ofForm [ContextSensitive.placeState]) rfl
    exact ⟨t, ht⟩

/-- **Generation never fails, and makes the initial configuration.**  For every automaton, whether its
parts fit together or not, and every word over its letters, the plan asks for productions of the
generation table only and is carried out completely, and the trace holds the productions of the plan
in their order.  What has been made then is the initial configuration, under the cursor the symbol
with the start state; in an unrestricted grammar this asks that the start state does not bear the name
of a helper. -/
theorem generation_exact (hword : a.Takes word) (padding : Padding) :
    (∀ step ∈ (Grammar.ofAutomaton a).plan word padding,
      step.production ∈ (Grammar.ofAutomaton a).generation) ∧
    ∃ d, Derivation.ofWord (Grammar.ofAutomaton a) word padding = .ok d ∧
      d.trace.steps = ((Grammar.ofAutomaton a).plan word padding).productions ∧
      (∀ blank, a.boundary = .blank blank → Unrestricted.Generated a blank word padding d) ∧
      ∀ left right, a.boundary = .markers left right →
        ContextSensitive.Generated a left right word d := by
  obtain ⟨d, hd⟩ := exists_ofWord hword padding
  refine ⟨Derivation.mem_of_followPlan (Derivation.followPlan_of_ofWord hd), d, hd, ?_, ?_, ?_⟩
  · have hsteps := (Derivation.replays_of_ofWord hd).1.steps_eq
    rwa [TracedForm.ofForm, Trace.steps_empty, List.nil_append] at hsteps
  · exact fun blank hb => Unrestricted.generated_of_ofWord hb hword.2 hd
  · exact fun left right hm => ContextSensitive.generated_of_ofWord hm hword hd

/-- A machine that makes no move, and whose only state bears the name of a letter. -/
def namesake : Automaton where
  alphabet := .ofList ["1"]
  tapeAlphabet := .ofList ["1", "B"]
  boundary := .blank "B"
  start := "1"
  finals := .ofList ["1"]
  delta := ∅

/-- The parts of the namesake do not fit together, but its start state leaves the helpers their names, so
that a word of two letters is generated; and on three letters the shuttle begins at the left marker. -/
theorem namesake_generation : ¬ namesake.WellFormed ∧
    (∃ d, Derivation.ofWord (Grammar.ofAutomaton namesake) ["1", "1"] ⟨1, 2⟩ = .ok d ∧
      Unrestricted.Generated namesake "B" ["1", "1"] ⟨1, 2⟩ d) ∧
    ∃ d, Derivation.ofWord (Grammar.ofAutomaton ContextSensitive.shuttle) ["1", "1", "1"] ⟨0, 0⟩ =
        .ok d ∧
      d.form = [ContextSensitive.composite ["q0", "@", "1", "1"],
        ContextSensitive.composite ["1", "1"], ContextSensitive.composite ["1", "1", "$"]] := by
  obtain ⟨-, d, hd, -, hunrestricted, -⟩ :=
    generation_exact (by decide : namesake.Takes ["1", "1"]) ⟨1, 2⟩
  obtain ⟨-, d', hd', -, -, hbounded⟩ :=
    generation_exact (by decide : ContextSensitive.shuttle.Takes ["1", "1", "1"]) ⟨0, 0⟩
  exact ⟨by decide, ⟨d, hd, hunrestricted "B" rfl⟩, d', hd',
    (hbounded "@" "$" rfl).form_more "1" ["1"] "1" rfl⟩

end TapeGrammar
