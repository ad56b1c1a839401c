import TapeGrammar.Proofs.Unrestricted.Mirror

/-!
# The language of an unrestricted grammar

A derivation need not keep to the three phases.  The machine may move while the row is still growing,
so that it runs on a word of which only the beginning is known; a final token may spread over a part
of the row, and its copies may move on; and letters may still be generated after that.  What can be
derived nevertheless are exactly the words on which the machine passes a final state
(section 7).

Soundness is an invariant of all forms that can be derived (`Sound`).  As long as no recovery
production has been applied, the form is HONEST: it is the encoding of a configuration that the
machine reaches, at the same time, on every word that the form can still be completed to.  The first
recovery production shows that this configuration is final.  From then on the form is DONE: nothing
is known about its tokens any more, but what it spells does not change except by letters that are
generated, and the words that it can be completed to become fewer.
-/

namespace TapeGrammar.Unrestricted

open TapeGrammar.Configuration (after? PassesFinal)

variable {a : Automaton} {blank : String} {word letters : Word} {c : Configuration}
  {p : Production} {first last : Int} {t : Nat} {body form form' : Form}

/-! ## 1. Stages of the generation -/

/-- What is left of the generation once the token has been placed. -/
inductive Stage where
  /-- Letters may still be laid. -/
  | laying
  /-- Padding may still be added behind the word. -/
  | filling
  | finished

/-- The helper at the end of the form. -/
def Stage.tail : Stage → Form
  | .laying => [layLetters]
  | .filling => [fillRight]
  | .finished => []

/-- The words that a form with these letters can be completed to. -/
def Stage.Completes (a : Automaton) (letters : Word) : Stage → Word → Prop
  | .laying, word => ∃ rest, (∀ letter ∈ rest, letter ∈ a.inputs) ∧ word = letters ++ rest
  | _, word => word = letters

variable {stage : Stage}

/-- The letters alone are a completion. -/
theorem completes_self (a : Automaton) (letters : Word) (stage : Stage) :
    stage.Completes a letters letters := by
  cases stage with
  | laying => exact ⟨[], by simp, by simp⟩
  | filling => rfl
  | finished => rfl

/-- One more letter leaves fewer completions. -/
theorem completes_of_concat {letter : String} (hletter : letter ∈ a.inputs)
    (h : Stage.laying.Completes a (letters ++ [letter]) word) :
    Stage.laying.Completes a letters word := by
  obtain ⟨rest, hrest, rfl⟩ := h
  exact ⟨letter :: rest, List.forall_mem_cons.mpr ⟨hletter, hrest⟩, by simp⟩

theorem mem_inputs_of_completes (hletters : ∀ letter ∈ letters, letter ∈ a.inputs)
    (h : stage.Completes a letters word) : ∀ letter ∈ word, letter ∈ a.inputs := by
  cases stage with
  | laying =>
    obtain ⟨rest, hrest, rfl⟩ := h
    intro letter hl
    rcases List.mem_append.mp hl with hl | hl
    · exact hletters letter hl
    · exact hrest letter hl
  | filling => exact h ▸ hletters
  | finished => exact h ▸ hletters

theorem isHelper_tail (stage : Stage) : ∀ s ∈ stage.tail, IsHelper s := by
  cases stage with
  | laying => simp [Stage.tail, isHelper_layLetters]
  | filling => simp [Stage.tail, isHelper_fillRight]
  | finished => simp [Stage.tail]

theorem length_tail_le (stage : Stage) : stage.tail.length ≤ 1 := by
  cases stage <;> decide

/-- The end of a form is neither a token nor a cell. -/
theorem tail_spec (ha : a.WellFormed) (stage : Stage) :
    ∀ s ∈ stage.tail, ¬ IsToken a s ∧ ∀ origin x, s ≠ cell origin x := by
  intro s hs
  have hhelper := isHelper_tail stage s hs
  refine ⟨?_, ?_⟩
  · rintro ⟨q, hq, rfl⟩
    exact not_isHelper_token ha hq hhelper
  · rintro origin x rfl
    exact not_isHelper_cell hhelper

/-! ## 2. Where productions apply -/

/-- Transition and recovery productions have a token on the left and no helper on either side. -/
theorem sides_spec (ha : a.WellFormed) (hp : p ∈ transition a ∨ p ∈ recovery a) :
    (∃ s ∈ p.left, IsToken a s) ∧ (∀ s ∈ p.left, ¬ IsHelper s) ∧ ∀ s ∈ p.right, ¬ IsHelper s := by
  rcases hp with hp | hp
  · obtain ⟨q, x, move, origin, hmove, -, hshape⟩ := mem_transition_iff.mp hp
    have hq := Automaton.isState_of_move? hmove
    have htoken := not_isHelper_token ha hq
    have hnext := not_isHelper_token ha (Automaton.isState_next hmove)
    rcases hshape with ⟨-, rfl⟩ | ⟨-, before, -, symbol, -, rfl⟩
    · refine ⟨⟨token q, by simp [stepRight], q, hq, rfl⟩, ?_, ?_⟩
      · simp [stepRight, htoken, not_isHelper_cell]
      · simp [stepRight, hnext, not_isHelper_cell]
    · refine ⟨⟨token q, by simp [stepLeft], q, hq, rfl⟩, ?_, ?_⟩
      · simp [stepLeft, htoken, not_isHelper_cell]
      · simp [stepLeft, hnext, not_isHelper_cell]
  · obtain ⟨q, hfinal, hshape⟩ := mem_recovery_iff.mp hp
    have hq := Automaton.isState_of_isFinal hfinal
    have htoken := not_isHelper_token ha hq
    have hpassed : ∀ origin, ∀ s ∈ passed q origin, ¬ IsHelper s := by
      intro origin
      unfold passed
      split
      · simp [htoken]
      · simp [htoken, not_isHelper_terminal]
    rcases hshape with rfl | ⟨origin, -, symbol, -, rfl | rfl⟩
    · exact ⟨⟨token q, by simp, q, hq, rfl⟩, by simp [htoken], by simp⟩
    · exact ⟨⟨token q, by simp, q, hq, rfl⟩, by simp [htoken, not_isHelper_cell], hpassed origin⟩
    · exact ⟨⟨token q, by simp, q, hq, rfl⟩, by simp [htoken, not_isHelper_cell], hpassed origin⟩

/-! ## 3. Honest forms -/

/-- One more cell behind the row. -/
theorem encode_succ (hlast : c.head ≤ last) :
    encode a word first (last + 1) c = encode a word first last c ++ [cellAt a word c last] := by
  have hlt : c.head < last + 1 := by omega
  rw [encode, row_toNat_concat hlt, encode, Int.add_sub_cancel]
  simp

/-- A cell more is still enough. -/
theorem Within.succ (h : Within a word first last c) : Within a word first (last + 1) c :=
  ⟨h.first_le, by have := h.le_last; omega, h.isState, h.symbol_mem,
    fun i hi => h.untouched i (by omega)⟩

/-- The form before its end encodes what the machine has reached after `t` moves on every word that
the form can be completed to. -/
structure Honest (a : Automaton) (stage : Stage) (letters : Word) (first last : Int) (t : Nat)
    (body : Form) : Prop where
  first_le : first ≤ 0
  letters_mem : ∀ letter ∈ letters, letter ∈ a.inputs
  le_last : (letters.length : Int) ≤ last
  last_le : stage = .laying → last ≤ letters.length
  reached : ∀ word, stage.Completes a letters word → ∃ c,
    after? a t (.ofWord a word) = some c ∧ Within a word first last c ∧
      body = encode a word first last c

/-- No symbol of an honest form is a helper before the end. -/
theorem Honest.not_isHelper (ha : a.WellFormed) (h : Honest a stage letters first last t body) :
    ∀ s ∈ body, ¬ IsHelper s := by
  obtain ⟨c, -, hwithin, rfl⟩ := h.reached letters (completes_self a letters stage)
  exact not_isHelper_encode ha hwithin

/-- The beginning, with the token on the word that is to be generated. -/
theorem honest_start (ha : a.WellFormed) (hb : a.boundary = .blank blank) (l : Nat) :
    Honest a .laying [] (-(l : Int)) 0 0
      (List.replicate l (cell Symbol.epsilon blank) ++ [token a.start]) := by
  refine ⟨by omega, by simp, by simp, by simp, ?_⟩
  intro word hword
  have hmem := mem_inputs_of_completes (by simp) hword
  refine ⟨.ofWord a word, rfl, within_ofWord ha hb hmem (by omega) (by omega), ?_⟩
  have hl : (0 - -(l : Int)).toNat = l := by omega
  rw [encode, Configuration.head_ofWord, Configuration.state_ofWord, hl, row_padding hb (by omega)]
  rfl

/-- A letter is laid. -/
theorem Honest.lay (hb : a.boundary = .blank blank) {letter : String}
    (hletter : letter ∈ a.inputs) (h : Honest a .laying letters first last t body) :
    Honest a .laying (letters ++ [letter]) first (last + 1) t (body ++ [cell letter letter]) := by
  have hlast : last = letters.length := Int.le_antisymm (h.last_le rfl) h.le_last
  refine ⟨h.first_le, ?_, by simp [hlast], by simp [hlast], ?_⟩
  · intro x hx
    rcases List.mem_append.mp hx with hx | hx
    · exact h.letters_mem x hx
    · rw [List.mem_singleton.mp hx]
      exact hletter
  · intro word hword
    obtain ⟨c, hc, hwithin, rfl⟩ := h.reached word (completes_of_concat hletter hword)
    refine ⟨c, hc, hwithin.succ, ?_⟩
    -- the machine has not been at the cell of the new letter
    have hcell : cellAt a word c last = cell letter letter := by
      obtain ⟨rest, -, rfl⟩ := hword
      have hget : (letters ++ [letter] ++ rest)[letters.length]? = some letter := by simp
      rw [cellAt, hwithin.untouched last (Or.inr (Int.le_refl _)), hlast]
      exact cellAt_ofWord hb hget
    rw [encode_succ hwithin.le_last, hcell]

/-- The word is complete. -/
theorem Honest.turn (h : Honest a .laying letters first last t body) :
    Honest a .filling letters first last t body := by
  refine ⟨h.first_le, h.letters_mem, h.le_last, by simp, ?_⟩
  rintro word rfl
  exact h.reached word (completes_self a word .laying)

/-- A padding cell is added. -/
theorem Honest.fill (hb : a.boundary = .blank blank)
    (h : Honest a .filling letters first last t body) :
    Honest a .filling letters first (last + 1) t (body ++ [cell Symbol.epsilon blank]) := by
  have hlast := h.le_last
  refine ⟨h.first_le, h.letters_mem, by omega, by simp, ?_⟩
  intro word hword
  obtain ⟨c, hc, hwithin, rfl⟩ := h.reached word hword
  obtain rfl : word = letters := hword
  refine ⟨c, hc, hwithin.succ, ?_⟩
  have hcell : cellAt a word c last = cell Symbol.epsilon blank := by
    rw [cellAt, hwithin.untouched last (Or.inr (Int.le_refl _))]
    exact cellAt_ofWord_padding hb (Or.inr hlast)
  rw [encode_succ hwithin.le_last, hcell]

/-- The generation is over. -/
theorem Honest.finish (h : Honest a .filling letters first last t body) :
    Honest a .finished letters first last t body :=
  ⟨h.first_le, h.letters_mem, h.le_last, by simp, h.reached⟩

/-- **A transition production makes a move**, on all completions at once. -/
theorem Honest.step (ha : a.WellFormed) (hb : a.boundary = .blank blank)
    (h : Honest a stage letters first last t body) (hp : p ∈ transition a) {before behind : Form}
    (hform : body ++ stage.tail = before ++ p.left ++ behind) :
    ∃ body', before ++ p.right ++ behind = body' ++ stage.tail ∧
      Honest a stage letters first last (t + 1) body' := by
  obtain ⟨⟨s, hs, -⟩, hleft, -⟩ := sides_spec ha (Or.inl hp)
  obtain ⟨behind, rfl, hbody⟩ :=
    Form.body_of_occurs (List.ne_nil_of_mem hs) hleft (isHelper_tail stage) hform
  refine ⟨before ++ p.right ++ behind, by simp, h.first_le, h.letters_mem, h.le_last, h.last_le, ?_⟩
  intro word hword
  obtain ⟨c, hc, hwithin, hencode⟩ := h.reached word hword
  have hoccurs : encode a word first last c ++ stage.tail =
      before ++ p.left ++ (behind ++ stage.tail) := by
    rw [← hencode, hform]
  obtain ⟨move, hmove, hroom, rfl, rfl, hrest⟩ := move_of_occurs hb (tail_spec ha stage) hp hoccurs
  obtain rfl := List.append_cancel_right hrest
  exact ⟨c.apply a move, Configuration.after?_succ hc hmove,
    hwithin.apply ha hb hmove hroom, (encode_apply_eq_around hwithin.first_le hroom).symm⟩

/-! ## 4. Forms that are done -/

/-- The machine passes a final state on every word that the form can be completed to. -/
structure Done (a : Automaton) (stage : Stage) (body : Form) : Prop where
  not_isHelper : ∀ s ∈ body, ¬ IsHelper s
  passes : ∀ word, stage.Completes a (reading.spelled body) word → PassesFinal a (.ofWord a word)

/-- **A recovery production shows that an honest form is final**, and leaves one that is done. -/
theorem Honest.recover (ha : a.WellFormed) (h : Honest a stage letters first last t body)
    (hp : p ∈ recovery a) {before behind : Form}
    (hform : body ++ stage.tail = before ++ p.left ++ behind) :
    ∃ body', before ++ p.right ++ behind = body' ++ stage.tail ∧ Done a stage body' := by
  obtain ⟨⟨s, hs, -⟩, hleft, hright⟩ := sides_spec ha (Or.inr hp)
  obtain ⟨body', hbody', hnone, hkept⟩ := reading.exists_rewritten (List.ne_nil_of_mem hs) hleft
    hright (spelled_recovery hp) (h.not_isHelper ha) (isHelper_tail stage) hform
  have hspelled : reading.spelled body' = letters := by
    obtain ⟨c, -, hwithin, hencode⟩ := h.reached letters (completes_self a letters stage)
    rw [hkept, hencode]
    exact spelled_encode (fun x hx => ha.input_ne_epsilon (h.letters_mem x hx)) h.first_le h.le_last
      hwithin
  refine ⟨body', hbody', hnone, ?_⟩
  rw [hspelled]
  intro word hword
  obtain ⟨c, hc, -, hencode⟩ := h.reached word hword
  refine ⟨t, c, hc, ?_⟩
  -- the token of the production is the token of the configuration
  obtain ⟨q, hfinal, hshape⟩ := mem_recovery_iff.mp hp
  have htoken : IsToken a (token q) := ⟨q, Automaton.isState_of_isFinal hfinal, rfl⟩
  have hq : token q ∈ encode a word first last c ++ stage.tail := by
    have hmem : token q ∈ p.left := by
      rcases hshape with rfl | ⟨origin, -, symbol, -, rfl | rfl⟩ <;> simp
    rw [← hencode, hform]
    simp [hmem]
  have hstate : q = c.state := by
    rcases List.mem_append.mp hq with hq | hq
    · rcases List.mem_append.mp hq with hq | hq
      · exact absurd htoken (not_isToken_row _ hq)
      · rcases List.mem_cons.mp hq with hq | hq
        · exact token_inj.mp hq
        · exact absurd htoken (not_isToken_row _ hq)
    · exact absurd htoken (tail_spec ha stage _ hq).1
  rw [← hstate]
  exact hfinal

/-- Transition and recovery productions keep a form done. -/
theorem Done.rewrite (ha : a.WellFormed) (h : Done a stage body)
    (hp : p ∈ transition a ∨ p ∈ recovery a) {before behind : Form}
    (hform : body ++ stage.tail = before ++ p.left ++ behind) :
    ∃ body', before ++ p.right ++ behind = body' ++ stage.tail ∧ Done a stage body' := by
  obtain ⟨⟨s, hs, -⟩, hleft, hright⟩ := sides_spec ha hp
  have hsame : reading.spelled p.left = reading.spelled p.right := by
    rcases hp with hp | hp
    · exact spelled_transition hp
    · exact spelled_recovery hp
  obtain ⟨body', hbody', hnone, hkept⟩ := reading.exists_rewritten (List.ne_nil_of_mem hs) hleft
    hright hsame h.not_isHelper (isHelper_tail stage) hform
  refine ⟨body', hbody', hnone, ?_⟩
  rw [hkept]
  exact h.passes

/-- A letter that is laid leaves fewer completions. -/
theorem Done.lay {letter : String} (hletter : letter ∈ a.inputs) (hne : letter ≠ Symbol.epsilon)
    (h : Done a .laying body) : Done a .laying (body ++ [cell letter letter]) := by
  refine ⟨not_isHelper_append h.not_isHelper (by simp [not_isHelper_cell]), ?_⟩
  have hspelled : reading.spelled (body ++ [cell letter letter]) =
      reading.spelled body ++ [letter] := by
    simp [Reading.spelled_cons, letter?_cell, hne]
  rw [hspelled]
  exact fun word hword => h.passes word (completes_of_concat hletter hword)

theorem Done.turn (h : Done a .laying body) : Done a .filling body := by
  refine ⟨h.not_isHelper, ?_⟩
  rintro word rfl
  exact h.passes _ (completes_self a _ .laying)

theorem Done.fill (h : Done a .filling body) :
    Done a .filling (body ++ [cell Symbol.epsilon blank]) := by
  refine ⟨not_isHelper_append h.not_isHelper (by simp [not_isHelper_cell]), ?_⟩
  have hspelled : reading.spelled (body ++ [cell Symbol.epsilon blank]) = reading.spelled body := by
    simp [Reading.spelled_cons, letter?_cell]
  rw [hspelled]
  exact h.passes

theorem Done.finish (h : Done a .filling body) : Done a .finished body :=
  ⟨h.not_isHelper, h.passes⟩

/-! ## 5. Soundness -/

/-- What is true of every form that can be derived. -/
inductive Sound (a : Automaton) (blank : String) : Form → Prop where
  /-- The token has not been placed. -/
  | filling (l : Nat) (helper : Symbol) (h : helper = fillLeft ∨ helper = placeToken) :
    Sound a blank (List.replicate l (cell Symbol.epsilon blank) ++ [helper])
  /-- No recovery production has been applied. -/
  | honest (stage : Stage) (letters : Word) (first last : Int) (t : Nat) (body : Form)
    (h : Honest a stage letters first last t body) : Sound a blank (body ++ stage.tail)
  | done (stage : Stage) (body : Form) (h : Done a stage body) : Sound a blank (body ++ stage.tail)

/-- A generation production replaces one helper. -/
theorem left_of_mem_generation (hp : p ∈ generation a blank) :
    ∃ helper, IsHelper helper ∧ p.left = [helper] := by
  cases mem_generation_iff.mp hp with
  | padLeft | place => exact ⟨_, isHelper_fillLeft, rfl⟩
  | put => exact ⟨_, isHelper_placeToken, rfl⟩
  | lay | turn => exact ⟨_, isHelper_layLetters, rfl⟩
  | padRight | finish => exact ⟨_, isHelper_fillRight, rfl⟩

/-- Before the token is placed, only the helper can be replaced. -/
theorem sound_of_filling (ha : a.WellFormed) (hb : a.boundary = .blank blank) {l : Nat}
    {helper : Symbol} (hhelper : helper = fillLeft ∨ helper = placeToken)
    (hp : (Grammar.ofAutomaton a).Has p) {before behind : Form}
    (hform : List.replicate l (cell Symbol.epsilon blank) ++ [helper] = before ++ p.left ++ behind) :
    Sound a blank (before ++ p.right ++ behind) := by
  have hpadding := not_isHelper_padding blank l
  have hishelper : IsHelper helper := by
    rcases hhelper with rfl | rfl
    · exact isHelper_fillLeft
    · exact isHelper_placeToken
  rcases hp with hp | hp
  · rw [mem_generation hb] at hp
    obtain ⟨helper', hhelper', hleft⟩ := left_of_mem_generation hp
    have hsplit : before ++ helper' :: behind =
        List.replicate l (cell Symbol.epsilon blank) ++ helper :: [] := by
      rw [hform, hleft]
      simp
    obtain ⟨rfl, rfl, rfl⟩ := split_unique hhelper' hpadding (by simp) hsplit
    cases mem_generation_iff.mp hp with
    | padLeft =>
      have hsound : Sound a blank (_ ++ [fillLeft]) := .filling (l + 1) fillLeft (Or.inl rfl)
      rw [List.replicate_succ', List.append_assoc] at hsound
      simpa using hsound
    | place =>
      have hsound : Sound a blank (_ ++ [placeToken]) := .filling l placeToken (Or.inr rfl)
      simpa using hsound
    | put =>
      have hsound : Sound a blank _ := .honest .laying _ _ _ _ _ (honest_start ha hb l)
      simpa [Stage.tail] using hsound
    | lay | turn | padRight | finish =>
      obtain rfl := (List.singleton_inj.mp hleft).symm
      rcases hhelper with h | h <;> exact absurd h (by decide)
  · have hp : p ∈ transition a ∨ p ∈ recovery a := by
      rcases hp with hp | hp
      · exact Or.inl ((mem_transition hb).mp hp)
      · exact Or.inr ((mem_recovery hb).mp hp)
    obtain ⟨⟨s, hs, q, hq, rfl⟩, hleft, -⟩ := sides_spec ha hp
    have hmem : token q ∈ List.replicate l (cell Symbol.epsilon blank) ++ [helper] := by
      rw [hform]
      simp [hs]
    rcases List.mem_append.mp hmem with hmem | hmem
    · exact absurd (List.eq_of_mem_replicate hmem) token_ne_cell
    · rw [List.mem_singleton] at hmem
      rw [← hmem] at hishelper
      exact absurd hishelper (not_isHelper_token ha hq)

/-- **The generation goes on at the end of the form**, in the same way whatever is known about the
form before. -/
theorem exists_of_generation {P : Stage → Form → Prop}
    (hhelper : ∀ stage body, P stage body → ∀ s ∈ body, ¬ IsHelper s)
    (hlay : ∀ body, ∀ letter ∈ a.inputs, P .laying body →
      P .laying (body ++ [cell letter letter]))
    (hturn : ∀ body, P .laying body → P .filling body)
    (hfill : ∀ body, P .filling body → P .filling (body ++ [cell Symbol.epsilon blank]))
    (hfinish : ∀ body, P .filling body → P .finished body)
    (h : P stage body) (hp : p ∈ generation a blank) {before behind : Form}
    (hform : body ++ stage.tail = before ++ p.left ++ behind) :
    ∃ stage' body', before ++ p.right ++ behind = body' ++ stage'.tail ∧ P stage' body' := by
  obtain ⟨helper, hishelper, hleft⟩ := left_of_mem_generation hp
  rw [hleft] at hform
  obtain ⟨htail, rfl, rfl⟩ :=
    Form.tail_of_occurs hishelper (hhelper stage body h) (length_tail_le stage) hform
  rw [List.append_nil]
  have hrule := mem_generation_iff.mp hp
  cases hrule
  all_goals
    obtain rfl := (List.singleton_inj.mp hleft).symm
    cases stage
    all_goals first | exact absurd htail (by decide) | skip
  case lay.laying letter hletter =>
    exact ⟨.laying, _, by simp [Stage.tail], hlay before letter hletter h⟩
  case turn.laying => exact ⟨.filling, before, rfl, hturn before h⟩
  case padRight.filling => exact ⟨.filling, _, by simp [Stage.tail], hfill before h⟩
  case finish.filling => exact ⟨.finished, before, rfl, hfinish before h⟩

/-- **Every replacement keeps a form sound.** -/
theorem Sound.rewrites (ha : a.WellFormed) (hb : a.boundary = .blank blank)
    (h : Sound a blank form) (hstep : Rewrites (Grammar.ofAutomaton a).Has form form') :
    Sound a blank form' := by
  obtain ⟨before, behind, p, hp⟩ := hstep
  generalize hform : before ++ p.left ++ behind = form at h
  cases h with
  | filling l helper hhelper => exact sound_of_filling ha hb hhelper hp hform.symm
  | honest stage letters first last t body hbody =>
    rcases hp with hp | hp | hp
    · obtain ⟨stage', body', hform', letters, first, last, t, hhonest⟩ :=
        exists_of_generation (P := fun stage body => ∃ letters first last t,
          Honest a stage letters first last t body)
          (fun stage body ⟨_, _, _, _, h⟩ => h.not_isHelper ha)
          (fun body letter hletter ⟨_, _, _, _, h⟩ => ⟨_, _, _, _, h.lay hb hletter⟩)
          (fun body ⟨_, _, _, _, h⟩ => ⟨_, _, _, _, h.turn⟩)
          (fun body ⟨_, _, _, _, h⟩ => ⟨_, _, _, _, h.fill hb⟩)
          (fun body ⟨_, _, _, _, h⟩ => ⟨_, _, _, _, h.finish⟩)
          ⟨letters, first, last, t, hbody⟩ ((mem_generation hb).mp hp) hform.symm
      rw [hform']
      exact .honest stage' letters first last t body' hhonest
    · obtain ⟨body', hform', hhonest⟩ := hbody.step ha hb ((mem_transition hb).mp hp) hform.symm
      rw [hform']
      exact .honest stage letters first last (t + 1) body' hhonest
    · obtain ⟨body', hform', hdone⟩ := hbody.recover ha ((mem_recovery hb).mp hp) hform.symm
      rw [hform']
      exact .done stage body' hdone
  | done stage body hbody =>
    rcases hp with hp | hp
    · obtain ⟨stage', body', hform', hdone⟩ :=
        exists_of_generation (P := Done a) (fun stage body h => h.not_isHelper)
          (fun body letter hletter h => h.lay hletter (ha.input_ne_epsilon hletter))
          (fun body h => h.turn) (fun body h => h.fill) (fun body h => h.finish)
          hbody ((mem_generation hb).mp hp) hform.symm
      rw [hform']
      exact .done stage' body' hdone
    · have hp : p ∈ transition a ∨ p ∈ recovery a := by
        rcases hp with hp | hp
        · exact Or.inl ((mem_transition hb).mp hp)
        · exact Or.inr ((mem_recovery hb).mp hp)
      obtain ⟨body', hform', hdone⟩ := hbody.rewrite ha hp hform.symm
      rw [hform']
      exact .done stage body' hdone

/-- Every form that can be derived is sound. -/
theorem sound_of_derives (ha : a.WellFormed) (hb : a.boundary = .blank blank)
    (h : Derives (Grammar.ofAutomaton a).Has [fillLeft] form) : Sound a blank form := by
  induction h with
  | refl => exact .filling 0 fillLeft (Or.inl rfl)
  | tail _ hstep ih => exact ih.rewrites ha hb hstep

/-- **A word that is generated makes the machine pass a final state.** -/
theorem passesFinal_of_generates (ha : a.WellFormed) (hb : a.boundary = .blank blank)
    (h : (Grammar.ofAutomaton a).Generates word) : PassesFinal a (.ofWord a word) := by
  rw [Grammar.Generates, start_eq hb] at h
  have hterminal : ∀ s ∈ word.map Symbol.terminal, ∀ q, s ≠ token q := by
    intro s hs q
    obtain ⟨x, -, rfl⟩ := List.mem_map.mp hs
    exact terminal_ne_token
  generalize hform : word.map Symbol.terminal = form at h hterminal
  cases sound_of_derives ha hb h with
  | filling l helper hhelper =>
    rcases hhelper with rfl | rfl
    · exact absurd rfl (hterminal fillLeft (by simp) "A0")
    · exact absurd rfl (hterminal placeToken (by simp) "A1")
  | honest stage letters first last t body hbody =>
    obtain ⟨c, -, -, rfl⟩ := hbody.reached letters (completes_self a letters stage)
    exact absurd rfl (hterminal (token c.state) (by simp [encode]) c.state)
  | done stage body hbody =>
    cases stage with
    | laying => exact absurd rfl (hterminal layLetters (by simp [Stage.tail]) "A2")
    | filling => exact absurd rfl (hterminal fillRight (by simp [Stage.tail]) "A3")
    | finished =>
      have hspelled : reading.spelled body = word := by
        rw [← reading.spelled_terminals word, hform, Stage.tail, List.append_nil]
      exact hbody.passes word hspelled.symm

/-! ## 6. Completeness -/

/-- The moves of a run with room for all of them can be made by transition productions. -/
theorem derives_of_after? (ha : a.WellFormed) (hb : a.boundary = .blank blank)
    (hword : ∀ letter ∈ word, letter ∈ a.inputs) {m n : Nat} (hle : n ≤ m)
    (h : after? a n (.ofWord a word) = some c) :
    Within a word (-(m : Int)) (word.length + m) c ∧
      Derives (· ∈ transition a) (encode a word (-(m : Int)) (word.length + m) (.ofWord a word))
        (encode a word (-(m : Int)) (word.length + m) c) := by
  induction n generalizing c with
  | zero =>
    cases h
    exact ⟨within_ofWord ha hb hword (by omega) (by omega), .refl⟩
  | succ n ih =>
    obtain ⟨c₁, move, h₁, hmove, rfl⟩ := Configuration.after?_succ_iff.mp h
    obtain ⟨hwithin, hderives⟩ := ih (by omega) h₁
    have hhead := Configuration.head_after? h₁
    rw [Configuration.head_ofWord] at hhead
    have hroom : Room (-(m : Int)) (word.length + m) c₁ move := ⟨by omega, fun _ => by omega⟩
    refine ⟨hwithin.apply ha hb hmove hroom, hderives.tail ?_⟩
    rw [encode_eq_around hroom, encode_apply_eq_around hwithin.first_le hroom]
    exact .replace _ _ _ (moveProduction_mem hb hword hwithin hmove)

/-- **A word on which the machine passes a final state is generated.** -/
theorem generates_of_passesFinal (ha : a.WellFormed) (hb : a.boundary = .blank blank)
    (hword : ∀ letter ∈ word, letter ∈ a.inputs) (h : PassesFinal a (.ofWord a word)) :
    (Grammar.ofAutomaton a).Generates word := by
  obtain ⟨n, c, hc, hfinal⟩ := h
  obtain ⟨d, hd, hmirrors⟩ := exists_mirrors_ofWord ha hb hword ⟨n, n⟩
  obtain ⟨hwithin, hmoves⟩ := derives_of_after? ha hb hword (Nat.le_refl n) hc
  let last : Derivation :=
    { traced := .ofForm (encode a word (-(n : Int)) (word.length + n) c),
      cursor := (c.head - -(n : Int)).toNat, steps := n }
  obtain ⟨fuel, t, hrecover, hterminal⟩ :=
    recoverWord_encode (d := last) hb hword hwithin hfinal rfl rfl
  have hmoved : Derives (· ∈ (Grammar.ofAutomaton a).transition) d.form last.form := by
    rw [hmirrors.form_eq]
    exact hmoves.mono fun p hp => (mem_transition hb).mpr hp
  have hspelled : reading.spelled last.form = word :=
    spelled_encode (fun x hx => ha.input_ne_epsilon (hword x hx)) (by omega) (by omega) hwithin
  exact Derivation.generates_of_phases reading hd hmoved
    (fun p hp => spelled_recovery ((mem_recovery hb).mp hp)) hrecover hterminal hspelled

/-! ## 7. The language -/

/-- **The grammar of a well-formed Turing machine generates exactly the words on which the machine is
in a final state at some time**, whether it halts there or not. -/
theorem generates_iff_passesFinal (ha : a.WellFormed) (hb : a.boundary = .blank blank)
    (hword : ∀ letter ∈ word, letter ∈ a.inputs) :
    (Grammar.ofAutomaton a).Generates word ↔
      ∃ n c, after? a n (.ofWord a word) = some c ∧ a.isFinal c.state = true := by
  constructor
  · exact passesFinal_of_generates ha hb
  · exact generates_of_passesFinal ha hb hword

/-- A machine that walks over the digits of a unary number, and accepts when it is back on the last
one. -/
def walker : Automaton where
  alphabet := .ofList ["1"]
  tapeAlphabet := .ofList ["1", "B"]
  boundary := .blank "B"
  start := "q0"
  finals := .ofList ["q1"]
  delta := .ofList [(Situation.mk "q0" "1", Move.mk "q0" "1" .right),
    (Situation.mk "q0" "B", Move.mk "q1" "B" .left)]

/-- The grammar of the walker generates the number one. -/
theorem walker_generates_one : (Grammar.ofAutomaton walker).Generates ["1"] := by
  refine (generates_iff_passesFinal (a := walker) (by decide) rfl (by decide)).mpr ?_
  have hfinal : (after? walker 2 (.ofWord walker ["1"])).any (fun c => walker.isFinal c.state) =
      true := by
    decide
  obtain ⟨c, hc, hq⟩ := (Option.any_eq_true _ _).mp hfinal
  exact ⟨2, c, hc, hq⟩

end TapeGrammar.Unrestricted
