import TapeGrammar.Proofs.LockStep
import TapeGrammar.Proofs.Unrestricted.Recovery
import TapeGrammar.Proofs.Window

/-!
# An unrestricted grammar in lock-step with its machine

The derivation is the encoding of the configuration by the cells that were generated, the padding
included, and its cursor is on the token.  Generation reaches the beginning of the run, a step makes
a move as long as the cells have room for it, and a final configuration is recovered: so the grammar
of a well-formed Turing machine is in lock-step with it (`lockStep`).
-/

namespace TapeGrammar.Unrestricted

open TapeGrammar.Derivation (Carries)

variable {a : Automaton} {blank : String} {word : Word} {padding : Padding} {d : Derivation}
  {c : Configuration} {move : Move}

/-! ## 1. Generation -/

theorem not_mem_of_isHelper {s : Symbol} {form : Form} (hs : IsHelper s)
    (h : ∀ s ∈ form, ¬ IsHelper s) : s ∉ form := fun hmem => h s hmem hs

/-- A row of padding cells. -/
theorem row_padding (hb : a.boundary = .blank blank) {start : Int} {length : Nat}
    (h : ∀ i, start ≤ i → i < start + length → i < 0 ∨ (word.length : Int) ≤ i) :
    row (cellAt a word (.ofWord a word)) start length =
      List.replicate length (cell Symbol.epsilon blank) := by
  refine List.eq_replicate_iff.mpr ⟨length_row _ _ _, ?_⟩
  intro s hs
  obtain ⟨i, hi, hi', rfl⟩ := mem_row hs
  exact cellAt_ofWord_padding hb (h i hi hi')

/-- The row of the cells of the word. -/
theorem row_word (hb : a.boundary = .blank blank) :
    row (cellAt a word (.ofWord a word)) 0 word.length = word.map fun x => cell x x := by
  refine List.ext_getElem? fun i => ?_
  rcases Nat.lt_or_ge i word.length with hlt | hge
  · have hletter : word[i]? = some word[i] := List.getElem?_eq_getElem hlt
    rw [getElem?_row _ _ hlt, List.getElem?_map, hletter, Option.map_some, Int.zero_add,
      cellAt_ofWord hb hletter]
  · rw [List.getElem?_eq_none (by simpa using hge), List.getElem?_eq_none (by simpa using hge)]

/-- The encoding of the beginning of a run. -/
theorem encode_ofWord (hb : a.boundary = .blank blank) (l r : Nat) :
    encode a word (-(l : Int)) (word.length + r) (.ofWord a word) =
      List.replicate l (cell Symbol.epsilon blank) ++ token a.start :: (word.map fun x => cell x x)
        ++ List.replicate r (cell Symbol.epsilon blank) := by
  have hl : (0 - -(l : Int)).toNat = l := by omega
  have hw : (word.length - 0 : Int).toNat = word.length := by omega
  have hr : ((word.length : Int) + r - word.length).toNat = r := by omega
  rw [encode, Configuration.head_ofWord, Configuration.state_ofWord, hl,
    ← row_append (by omega : (0 : Int) ≤ word.length)
      (by omega : (word.length : Int) ≤ word.length + r),
    hw, hr, row_word hb, row_padding hb (by omega), row_padding hb (by omega)]
  simp

/-- No padding cell is a helper. -/
theorem not_isHelper_padding (blank : String) (length : Nat) :
    ∀ s ∈ List.replicate length (cell Symbol.epsilon blank), ¬ IsHelper s := by
  intro s hs
  rw [List.eq_of_mem_replicate hs]
  exact not_isHelper_cell

theorem not_isHelper_append {form form' : Form} (h : ∀ s ∈ form, ¬ IsHelper s)
    (h' : ∀ s ∈ form', ¬ IsHelper s) : ∀ s ∈ form ++ form', ¬ IsHelper s := by
  intro s hs
  rcases List.mem_append.mp hs with hs | hs
  · exact h s hs
  · exact h' s hs

/-- The part of the plan that generates the letters. -/
theorem carries_letters (hb : a.boundary = .blank blank)
    (hword : ∀ letter ∈ word, letter ∈ a.inputs) {left : Form} (hleft : ∀ s ∈ left, ¬ IsHelper s) :
    Carries (Grammar.ofAutomaton a)
      (word.map fun letter => .single layLetters [cell letter letter, layLetters])
      (left ++ [layLetters]) (left ++ (word.map fun x => cell x x) ++ [layLetters]) := by
  induction word generalizing left with
  | nil =>
    simp only [List.map_nil, List.append_nil]
    exact Derivation.carries_nil _
  | cons letter word ih =>
    have hfirst : Carries (Grammar.ofAutomaton a)
        [.single layLetters [cell letter letter, layLetters]] (left ++ [layLetters])
        (left ++ [cell letter letter, layLetters]) :=
      Derivation.carries_last ((GenerationRule.lay letter (hword letter (by simp))).mem hb)
        (not_mem_of_isHelper isHelper_layLetters hleft)
    have hleft' : ∀ s ∈ left ++ [cell letter letter], ¬ IsHelper s := by
      refine not_isHelper_append hleft fun s hs => ?_
      rw [List.mem_singleton.mp hs]
      exact not_isHelper_cell
    have hrest := ih (fun x hx => hword x (by simp [hx])) hleft'
    rw [List.append_assoc left, List.singleton_append] at hrest
    have happend := hfirst.append hrest
    simpa using happend

/-- The part of a plan that generates padding with a helper. -/
theorem carries_padding {helper : Symbol} (hhelper : IsHelper helper)
    (hmem : (⟨[helper], [cell Symbol.epsilon blank, helper]⟩ : Production) ∈
      (Grammar.ofAutomaton a).generation) {left : Form} (hleft : ∀ s ∈ left, ¬ IsHelper s)
    (times : Nat) :
    Carries (Grammar.ofAutomaton a)
      [.repeated helper [cell Symbol.epsilon blank, helper] times] (left ++ [helper])
      (left ++ List.replicate times (cell Symbol.epsilon blank) ++ [helper]) := by
  have hmid : helper ∉ [cell Symbol.epsilon blank] := by
    rw [List.mem_singleton]
    rintro rfl
    exact not_isHelper_cell hhelper
  have h : Carries (Grammar.ofAutomaton a) _ (left ++ [helper] ++ [])
      (left ++ (List.replicate times [cell Symbol.epsilon blank]).flatten ++ [helper] ++ []) :=
    Derivation.carries_repeated hmem (not_mem_of_isHelper hhelper hleft) hmid times
  rw [List.append_nil, List.append_nil, List.flatten_replicate_singleton] at h
  exact h

/-- A helper at the end of the form is replaced. -/
theorem carries_helper {helper : Symbol} (hhelper : IsHelper helper) {new : Form}
    (hmem : (⟨[helper], new⟩ : Production) ∈ (Grammar.ofAutomaton a).generation) {left : Form}
    (hleft : ∀ s ∈ left, ¬ IsHelper s) :
    Carries (Grammar.ofAutomaton a) [.single helper new] (left ++ [helper]) (left ++ new) :=
  Derivation.carries_last hmem (not_mem_of_isHelper hhelper hleft)

/-- **The plan generates the beginning of the run**, unless the start state bears the name of a
helper. -/
theorem carries_plan (hstart : ¬ IsHelper (token a.start)) (hb : a.boundary = .blank blank)
    (hword : ∀ letter ∈ word, letter ∈ a.inputs) (padding : Padding) :
    Carries (Grammar.ofAutomaton a) (plan a.start blank word padding) [fillLeft]
      (encode a word (-(padding.left : Int)) (word.length + padding.right) (.ofWord a word)) := by
  have hleft := not_isHelper_padding blank padding.left
  have htoken : ∀ s ∈ [token a.start], ¬ IsHelper s := by
    intro s hs
    rw [List.mem_singleton.mp hs]
    exact hstart
  have hcells : ∀ s ∈ word.map fun x => cell x x, ¬ IsHelper s := by
    intro s hs
    obtain ⟨x, -, rfl⟩ := List.mem_map.mp hs
    exact not_isHelper_cell
  have hbegun := not_isHelper_append hleft htoken
  have hlaid := not_isHelper_append hbegun hcells
  have hfill : Carries (Grammar.ofAutomaton a) _ ([] ++ [fillLeft]) _ :=
    carries_padding isHelper_fillLeft (GenerationRule.padLeft.mem hb) (by simp) padding.left
  have hplace := carries_helper isHelper_fillLeft (GenerationRule.place.mem hb) hleft
  have hput := carries_helper isHelper_placeToken (GenerationRule.put.mem hb) hleft
  have hlay := carries_letters hb hword hbegun
  have hturn := carries_helper isHelper_layLetters (GenerationRule.turn.mem hb) hlaid
  have hfill' := carries_padding isHelper_fillRight (GenerationRule.padRight.mem hb) hlaid
    padding.right
  have hend := carries_helper isHelper_fillRight (GenerationRule.finish.mem hb)
    (not_isHelper_append hlaid (not_isHelper_padding blank padding.right))
  rw [List.append_cons _ (token a.start) [layLetters]] at hput
  have hall := (hfill.append (hplace.append hput)).append
    (hlay.append (hturn.append (hfill'.append hend)))
  rw [encode_ofWord hb]
  simpa [plan] using hall

/-! ## 2. The relation -/

/-- The derivation with a padding that mirrors a configuration. -/
structure Mirrors (a : Automaton) (word : Word) (padding : Padding) (d : Derivation)
    (c : Configuration) : Prop where
  form_eq : d.form = encode a word (-(padding.left : Int)) (word.length + padding.right) c
  cursor_eq : d.cursor = (c.head - -(padding.left : Int)).toNat
  steps_eq : d.steps = c.steps
  within : Within a word (-(padding.left : Int)) (word.length + padding.right) c

/-- At which end of the row a configuration has no room for its move. -/
def edge? (a : Automaton) (word : Word) (padding : Padding) (c : Configuration) :
    Option Direction :=
  if c.head = (word.length : Int) + padding.right then some .right
  else if c.head = -(padding.left : Int) ∧ (c.pending? a).map Move.direction = some .left then
    some .left
  else none

/-- A move has room unless the configuration is at an edge. -/
theorem room_of_edge? (h : Mirrors a word padding d c) (hmove : c.pending? a = some move)
    (hedge : edge? a word padding c = none) :
    Room (-(padding.left : Int)) (word.length + padding.right) c move := by
  unfold edge? at hedge
  split at hedge
  · cases hedge
  · rename_i hright
    split at hedge
    · cases hedge
    · rename_i hleft
      have := h.within.first_le
      have := h.within.le_last
      refine ⟨by omega, fun hdir => ?_⟩
      rcases Int.lt_or_le (-(padding.left : Int)) c.head with hlt | hge
      · exact hlt
      · exact absurd ⟨by omega, by rw [hmove, Option.map_some, hdir]⟩ hleft

/-- At an edge a move has no room. -/
theorem edge?_of_room (hmove : c.pending? a = some move)
    (hroom : Room (-(padding.left : Int)) (word.length + padding.right) c move) :
    edge? a word padding c = none := by
  have hlt := hroom.lt_last
  unfold edge?
  rw [if_neg (by omega), if_neg]
  rintro ⟨hhead, hdir⟩
  rw [hmove, Option.map_some, Option.some.injEq] at hdir
  have := hroom.first_lt hdir
  omega

/-- Generation mirrors the beginning of the run. -/
theorem exists_mirrors_ofWord (ha : a.WellFormed) (hb : a.boundary = .blank blank)
    (hword : ∀ letter ∈ word, letter ∈ a.inputs) (padding : Padding) :
    ∃ d, Derivation.ofWord (Grammar.ofAutomaton a) word padding = .ok d ∧
      Mirrors a word padding d (.ofWord a word) := by
  obtain ⟨t, ht, hform⟩ := carries_plan (not_isHelper_token ha Automaton.isState_start) hb hword
    padding (.ofForm [fillLeft]) rfl
  refine ⟨{ traced := t, cursor := padding.left, steps := 0 }, ?_, hform, ?_, ?_, ?_⟩
  · simp only [Derivation.ofWord, Derivation.initial, plan_eq hb, start_eq hb, ht, kind_eq hb,
      GrammarKind.firstCursor]
  · simp
  · simp
  · exact within_ofWord ha hb hword (by omega) (by omega)

/-! ## 3. Steps -/

theorem moveProduction_hasWidth (a : Automaton) (word : Word) (c : Configuration) (move : Move) :
    (moveProduction a word c move).HasWidth := by
  unfold moveProduction
  cases move.direction with
  | right => exact (by decide : 1 ≤ 2 ∧ 2 ≤ 3)
  | left => exact (by decide : 1 ≤ 3 ∧ 3 ≤ 3)

/-- **A move with room is the only replacement that a transition production can make.** -/
theorem appliesOnlyAt (hb : a.boundary = .blank blank)
    (hword : ∀ letter ∈ word, letter ∈ a.inputs) (h : Mirrors a word padding d c)
    (hmove : c.pending? a = some move)
    (hroom : Room (-(padding.left : Int)) (word.length + padding.right) c move) :
    Derivation.AppliesOnlyAt (Grammar.ofAutomaton a) d (moveProduction a word c move)
      (beforeMove a word (-(padding.left : Int)) c move)
      (behindMove a word (word.length + padding.right) c) := by
  refine ⟨?_, moveProduction_hasWidth a word c move, ?_, ?_⟩
  · rw [mem_transition hb]
    exact moveProduction_mem hb hword h.within hmove
  · rw [h.form_eq, encode_eq_around hroom]
  · intro p' hp' before' behind' hform
    rw [mem_transition hb] at hp'
    rw [h.form_eq, ← List.append_nil (encode _ _ _ _ _)] at hform
    obtain ⟨move', hmove', -, hp, hbefore, -⟩ := move_of_occurs hb (by simp) hp' hform
    rw [hmove] at hmove'
    cases hmove'
    exact ⟨hp, hbefore⟩

/-- The place of a move is a site, and the cursor follows the head. -/
theorem site_mem (hb : a.boundary = .blank blank) (h : Mirrors a word padding d c)
    (hroom : Room (-(padding.left : Int)) (word.length + padding.right) c move) :
    ⟨(beforeMove a word (-(padding.left : Int)) c move).length,
      (moveProduction a word c move).left.length,
      ((c.apply a move).head - -(padding.left : Int)).toNat⟩ ∈
      Derivation.sites (Grammar.ofAutomaton a) d := by
  have hfirst := h.within.first_le
  rw [Derivation.mem_sites_iff, kind_eq hb, h.cursor_eq]
  unfold beforeMove moveProduction
  cases hdir : move.direction with
  | right =>
    rw [Configuration.head_apply_right hdir]
    simp only [length_row, stepRight, List.length_cons, List.length_nil]
    refine Or.inr (Or.inl ?_)
    congr 1
    omega
  | left =>
    have hpos := hroom.first_lt hdir
    rw [Configuration.head_apply_left hdir]
    simp only [length_row, stepLeft, List.length_cons, List.length_nil, GrammarKind.leftStepWidth]
    refine Or.inr (Or.inr ⟨by omega, ?_⟩)
    congr 1
    · omega
    · omega

/-- **A move with room is a step of the derivation.** -/
theorem step_of_room (ha : a.WellFormed) (hb : a.boundary = .blank blank)
    (hword : ∀ letter ∈ word, letter ∈ a.inputs) (h : Mirrors a word padding d c)
    (hmove : c.pending? a = some move)
    (hroom : Room (-(padding.left : Int)) (word.length + padding.right) c move) :
    ∃ d', Derivation.step (Grammar.ofAutomaton a) d = .ok (some d') ∧
      Mirrors a word padding d' (c.apply a move) := by
  refine ⟨_, Derivation.step_of_unique (appliesOnlyAt hb hword h hmove hroom) (site_mem hb h hroom),
    ?_, rfl, ?_, h.within.apply ha hb hmove hroom⟩
  · exact (encode_apply_eq_around h.within.first_le hroom).symm
  · rw [Configuration.steps_apply, ← h.steps_eq]
    rfl

/-- Without a move, or without room for it, no transition production applies. -/
theorem not_occurs_of_stuck (hb : a.boundary = .blank blank) (h : Mirrors a word padding d c)
    (hstuck : c.pending? a = none ∨ edge? a word padding c ≠ none) :
    ∀ p ∈ (Grammar.ofAutomaton a).transition, ∀ before behind,
      d.form ≠ before ++ p.left ++ behind := by
  intro p hp before behind hform
  rw [mem_transition hb] at hp
  rw [h.form_eq, ← List.append_nil (encode _ _ _ _ _)] at hform
  obtain ⟨move, hmove, hroom, -⟩ := move_of_occurs hb (by simp) hp hform
  rcases hstuck with hnone | hedge
  · rw [hnone] at hmove
    cases hmove
  · exact hedge (edge?_of_room hmove hroom)

/-- **Without a move, or without room for it, the derivation stops.** -/
theorem step_of_stuck (hb : a.boundary = .blank blank) (h : Mirrors a word padding d c)
    (hstuck : c.pending? a = none ∨ edge? a word padding c ≠ none) :
    Derivation.step (Grammar.ofAutomaton a) d = .ok none :=
  Derivation.step_of_absent (not_occurs_of_stuck hb h hstuck)

/-! ## 4. The end of a simulation -/

/-- The symbol under the cursor is the token. -/
theorem getElem?_cursor (h : Mirrors a word padding d c) :
    d.form[d.cursor]? = some (token c.state) := by
  rw [h.form_eq, h.cursor_eq, encode, List.getElem?_append_right (by simp)]
  simp

/-- The symbol read off the form is the one under the head. -/
theorem symbolRead?_eq (hb : a.boundary = .blank blank) (h : Mirrors a word padding d c) :
    d.symbolRead? blank = some (c.symbol a c.head) := by
  have hnext : d.form[d.cursor + 1]? = (row (cellAt a word c) c.head
      ((word.length : Int) + padding.right - c.head).toNat)[0]? := by
    rw [h.form_eq, h.cursor_eq, encode, List.getElem?_append_right (by simp)]
    simp
  unfold Derivation.symbolRead?
  rw [hnext]
  rcases Int.lt_or_le c.head ((word.length : Int) + padding.right) with hlt | hge
  · rw [row_toNat_cons hlt]
    rfl
  · -- the head is behind the last cell, where the tape has not been touched
    have hzero : ((word.length : Int) + padding.right - c.head).toNat = 0 := by omega
    have hhead := h.within.le_last
    rw [hzero, row, h.within.untouched c.head (Or.inr hge), symbol_ofWord hb]
    have hnone : word[c.head.toNat]? = none := List.getElem?_eq_none (by omega)
    simp [hnone]

/-- Where the derivation stops, cells are missed exactly if there is a move. -/
theorem missingSide?_eq (hb : a.boundary = .blank blank) (hne : word ≠ [])
    (h : Mirrors a word padding d c)
    (hstuck : c.pending? a = none ∨ edge? a word padding c ≠ none) :
    Derivation.missingSide? (Grammar.ofAutomaton a) d =
      (c.pending? a).bind fun _ => edge? a word padding c := by
  have hblank : a.blank? = some blank := by simp [Automaton.blank?, hb]
  have hlength : 0 < word.length := List.length_pos_iff.mpr hne
  have hfirst := h.within.first_le
  have hsize : d.form.length = padding.left + (word.length + padding.right) + 1 := by
    have := h.within.le_last
    rw [h.form_eq, encode, List.length_append, List.length_cons, length_row, length_row]
    omega
  have hstate : (token c.state).labels.head? = some c.state := rfl
  simp only [Derivation.missingSide?, automaton_eq hb, hblank, getElem?_cursor h,
    symbolRead?_eq hb h, hstate, Option.bind_eq_bind, Option.bind_some,
    ← Configuration.pending?_of_blank hb]
  cases hmove : c.pending? a with
  | none => rfl
  | some move =>
    simp only [Option.bind_some]
    rw [hmove] at hstuck
    have hedge : edge? a word padding c ≠ none := by simpa using hstuck
    unfold edge? at hedge ⊢
    rw [hsize, h.cursor_eq]
    split at hedge
    · rename_i hright
      rw [if_pos hright, if_neg (by omega), if_pos (by omega)]
    · rename_i hright
      split at hedge
      · rename_i hleft
        rw [if_neg hright, if_pos hleft, if_pos (by omega)]
      · exact absurd rfl hedge

/-- The symbol under the cursor carries the state. -/
theorem stateCarried_eq (hb : a.boundary = .blank blank) (h : Mirrors a word padding d c) :
    Derivation.stateCarried (Grammar.ofAutomaton a) d = .ok c.state := by
  have hfind : (token c.state).labels.find? (Grammar.ofAutomaton a).automaton.isState =
      some c.state := by
    rw [automaton_eq hb]
    simp [token, Symbol.labels, h.within.isState]
  simp only [Derivation.stateCarried, getElem?_cursor h, Option.bind_some, hfind]

/-- **The verdict on a derivation is that on the configuration.** -/
theorem conclude_eq (ha : a.WellFormed) (hb : a.boundary = .blank blank)
    (hword : ∀ letter ∈ word, letter ∈ a.inputs) (h : Mirrors a word padding d c) :
    ∃ fuel trace, Derivation.conclude (Grammar.ofAutomaton a) fuel word d =
      some (.ok (.ofHalt a word c trace)) := by
  have hauto : (Grammar.ofAutomaton a).automaton = a := automaton_eq hb
  have hspelled : reading.spelled d.form = word := by
    rw [h.form_eq]
    exact spelled_encode (fun letter hl => ha.input_ne_epsilon (hword letter hl)) (by omega)
      (by omega) h.within
  have hconclude := Derivation.conclude_eq_ofHalt reading (stateCarried_eq hb h) h.steps_eq
    (fun p hp => spelled_recovery ((mem_recovery hb).mp hp)) hspelled
  rw [hauto] at hconclude
  exact hconclude fun hq => recoverWord_encode hb hword h.within hq h.form_eq h.cursor_eq

/-- **The grammar of a well-formed Turing machine is in lock-step with it.** -/
theorem lockStep (ha : a.WellFormed) (hb : a.boundary = .blank blank) (hword : a.Takes word) :
    LockStep a (Grammar.ofAutomaton a) word (Mirrors a word) (edge? a word) where
  automaton_eq := automaton_eq hb
  generated := exists_mirrors_ofWord ha hb hword.2
  steps_eq := Mirrors.steps_eq
  moved h hmove hedge := step_of_room ha hb hword.2 h hmove (room_of_edge? h hmove hedge)
  stuck := step_of_stuck hb
  missing := missingSide?_eq hb hword.1
  edge_left {padding c} hedge := by
    unfold edge? at hedge
    split at hedge
    · cases hedge
    · split at hedge
      · rename_i hleft
        exact hleft.1
      · cases hedge
  edge_right {padding c} hedge := by
    unfold edge? at hedge
    split at hedge
    · rename_i hright
      exact hright
    · split at hedge <;> cases hedge
  concluded := conclude_eq ha hb hword.2

end TapeGrammar.Unrestricted
