import TapeGrammar.Proofs.ContextSensitive.Recovery
import TapeGrammar.Proofs.LockStep
import TapeGrammar.Proofs.Window

/-!
# A context-sensitive grammar in lock-step with its automaton

The derivation is the encoding of the configuration, and its cursor is on the composite that carries
the state.  Generation reaches the beginning of the run, a step makes a move, and a final
configuration is recovered.  The markers leave no room for anything else: there are no edges, and
padding plays no part.  So the grammar of a well-formed bounded automaton is in lock-step with it
(`lockStep`).
-/

namespace TapeGrammar.ContextSensitive

variable {a : Automaton} {left right : String} {v : Vocabulary} {word : Word} {d : Derivation}
  {c : Configuration} {move : Move} {i : Int}

/-! ## 1. Generation -/

/-- The first composite at the beginning of a run. -/
theorem symbolAt_ofWord_first (hm : a.boundary = .markers left right) (hne : word ≠ []) :
    symbolAt a v word (.ofWord a word) 1 =
      carrying v (.onLeft (decide ((1 : Int) = word.length))) a.start (letterAt word 1)
        (letterAt word 1) := by
  have hlength : 0 < word.length := List.length_pos_iff.mpr hne
  have hplace : place? word.length (Configuration.ofWord a word).head 1 =
      some (.onLeft (decide ((1 : Int) = word.length))) := by
    rw [place?, Configuration.head_ofWord, if_neg (by omega), if_pos ⟨rfl, rfl⟩]
  simp only [symbolAt, hplace, Configuration.state_ofWord]
  rw [symbol_ofWord_cell hm (by omega) (by omega)]

/-- The other composites at the beginning of a run. -/
theorem symbolAt_ofWord_later (hm : a.boundary = .markers left right) (hi : 2 ≤ i)
    (hi' : i ≤ word.length) :
    symbolAt a v word (.ofWord a word) i =
      plain v false (decide (i = word.length)) (letterAt word i) (letterAt word i) := by
  have hanchor : anchor word (.ofWord a word) = 1 := by
    rw [anchor, Configuration.head_ofWord]
    omega
  rw [symbolAt_of_ne (by omega) hi' (by omega), decide_eq_false (by omega : ¬ i = 1),
    symbol_ofWord_cell hm (by omega) hi']

/-- The letter behind the ones that are done. -/
theorem letterAt_append (done rest : Word) (letter : String) :
    letterAt (done ++ letter :: rest) (1 + done.length) = letter := by
  have hpos : (1 + (done.length : Int) - 1).toNat = done.length := by omega
  rw [letterAt, hpos]
  simp

/-- **The plan for the cells behind the first one** generates them. -/
theorem carries_planTail (hm : a.boundary = .markers left right)
    (hword : ∀ letter ∈ word, letter ∈ a.inputs) {rest done : Word} (hsplit : word = done ++ rest)
    (hrest : rest ≠ []) (hdone : done ≠ []) :
    Derivation.Carries (Grammar.ofAutomaton a) (planTail right rest)
      (encode a (.ofAutomaton a left right) word done.length (.ofWord a word) ++ [layLetters])
      (encode a (.ofAutomaton a left right) word word.length (.ofWord a word)) := by
  have hpos : 0 < done.length := List.length_pos_iff.mpr hdone
  have hhelper : layLetters ∉
      encode a (.ofAutomaton a left right) word done.length (.ofWord a word) :=
    fun hmem => not_isHelper_encode _ _ hmem (Or.inr rfl)
  induction rest generalizing done with
  | nil => exact absurd rfl hrest
  | cons letter rest ih =>
    have hletter : letter ∈ a.inputs := hword letter (by simp [hsplit])
    have hlength : word.length = done.length + 1 + rest.length := by
      rw [hsplit, List.length_append, List.length_cons]
      omega
    have hat : letterAt word (1 + done.length) = letter := hsplit ▸ letterAt_append done rest letter
    have htwo : (2 : Int) ≤ 1 + (done.length : Int) := by omega
    have hcell := symbolAt_ofWord_later (v := .ofAutomaton a left right) hm htwo
      (by omega : 1 + (done.length : Int) ≤ word.length)
    rw [hat] at hcell
    cases rest with
    | nil =>
      have hmem : (⟨[layLetters], [plain (.ofAutomaton a left right) false true letter letter]⟩ :
          Production) ∈ (Grammar.ofAutomaton a).generation :=
        (mem_generation hm).mpr (mem_generation_iff.mpr
          ⟨letter, hletter, Or.inr (Or.inr (Or.inr rfl))⟩)
      have hlast : encode a (.ofAutomaton a left right) word word.length (.ofWord a word) =
          encode a (.ofAutomaton a left right) word done.length (.ofWord a word) ++
            [plain (.ofAutomaton a left right) false true letter letter] := by
        rw [hlength, encode, List.length_nil, Nat.add_zero, row_succ_last, hcell,
          decide_eq_true (by simp at hlength; omega)]
        rfl
      rw [hlast]
      exact Derivation.carries_last hmem hhelper
    | cons next rest =>
      have hmem : (⟨[layLetters],
          [plain (.ofAutomaton a left right) false false letter letter, layLetters]⟩ :
          Production) ∈ (Grammar.ofAutomaton a).generation :=
        (mem_generation hm).mpr (mem_generation_iff.mpr
          ⟨letter, hletter, Or.inr (Or.inr (Or.inl rfl))⟩)
      have hmore : encode a (.ofAutomaton a left right) word (done ++ [letter]).length
          (.ofWord a word) =
          encode a (.ofAutomaton a left right) word done.length (.ofWord a word) ++
            [plain (.ofAutomaton a left right) false false letter letter] := by
        rw [List.length_append, List.length_singleton, encode, row_succ_last, hcell,
          decide_eq_false (by simp at hlength; omega)]
        rfl
      have hlay := Derivation.carries_last hmem hhelper
      have hgo := ih (by rw [hsplit]; simp : word = (done ++ [letter]) ++ next :: rest) (by simp)
        (by simp) (by simp) (fun hmem => not_isHelper_encode _ _ hmem (Or.inr rfl))
      rw [hmore, List.append_assoc, List.singleton_append] at hgo
      exact hlay.append hgo

/-- **The plan generates the beginning of the run.** -/
theorem carries_plan (hm : a.boundary = .markers left right) (hword : a.Takes word) :
    Derivation.Carries (Grammar.ofAutomaton a) (plan a.start left right word) [placeState]
      (encode a (.ofAutomaton a left right) word word.length (.ofWord a word)) := by
  match word, hword with
  | [], hword => exact absurd rfl hword.1
  | [letter], hword =>
    have hmem : (⟨[placeState],
        [carrying (.ofAutomaton a left right) (.onLeft true) a.start letter letter]⟩ :
        Production) ∈ (Grammar.ofAutomaton a).generation :=
      (mem_generation hm).mpr (mem_generation_iff.mpr
        ⟨letter, hword.2 letter (by simp), Or.inl rfl⟩)
    have hcell : encode a (.ofAutomaton a left right) [letter] 1 (.ofWord a [letter]) =
        [carrying (.ofAutomaton a left right) (.onLeft true) a.start letter letter] := by
      rw [encode, row, symbolAt_ofWord_first hm hword.1]
      rfl
    have hplace : Derivation.Carries (Grammar.ofAutomaton a) _ ([] ++ [placeState]) ([] ++ _) :=
      Derivation.carries_last hmem List.not_mem_nil
    rw [List.length_singleton, hcell]
    exact hplace
  | first :: next :: rest, hword =>
    have hmem : (⟨[placeState],
        [carrying (.ofAutomaton a left right) (.onLeft false) a.start first first, layLetters]⟩ :
        Production) ∈ (Grammar.ofAutomaton a).generation :=
      (mem_generation hm).mpr (mem_generation_iff.mpr
        ⟨first, hword.2 first (by simp), Or.inr (Or.inl rfl)⟩)
    have hcell : encode a (.ofAutomaton a left right) (first :: next :: rest) 1
        (.ofWord a (first :: next :: rest)) =
        [carrying (.ofAutomaton a left right) (.onLeft false) a.start first first] := by
      rw [encode, row, symbolAt_ofWord_first hm hword.1, decide_eq_false (by simp; omega)]
      rfl
    have hplace : Derivation.Carries (Grammar.ofAutomaton a) _ ([] ++ [placeState]) ([] ++ _) :=
      Derivation.carries_last hmem List.not_mem_nil
    have hsplit : first :: next :: rest = [first] ++ (next :: rest) := rfl
    have htail := carries_planTail hm hword.2 hsplit (List.cons_ne_nil _ _) (List.cons_ne_nil _ _)
    rw [List.length_singleton, hcell] at htail
    exact hplace.append htail

/-! ## 2. The relation -/

/-- The derivation that mirrors a configuration. -/
structure Mirrors (a : Automaton) (v : Vocabulary) (word : Word) (d : Derivation)
    (c : Configuration) : Prop where
  form_eq : d.form = encode a v word word.length c
  cursor_eq : d.cursor = (anchor word c - 1).toNat
  steps_eq : d.steps = c.steps
  fenced : Fenced a v word c

/-- Generation mirrors the beginning of the run, with any padding. -/
theorem exists_mirrors_ofWord (ha : a.WellFormed) (hm : a.boundary = .markers left right)
    (hword : a.Takes word) (padding : Padding) :
    ∃ d, Derivation.ofWord (Grammar.ofAutomaton a) word padding = .ok d ∧
      Mirrors a (.ofAutomaton a left right) word d (.ofWord a word) := by
  obtain ⟨t, ht, hform⟩ := carries_plan hm hword (.ofForm [placeState]) rfl
  have hanchor : (anchor word (.ofWord a word) - 1).toNat = 0 := by
    rw [anchor, Configuration.head_ofWord]
    omega
  refine ⟨{ traced := t, cursor := 0, steps := 0 }, ?_, hform, hanchor.symm, ?_,
    fenced_ofWord ha hm hword.2⟩
  · simp only [Derivation.ofWord, Derivation.initial, plan_eq hm, start_eq hm, ht, kind_eq hm,
      GrammarKind.firstCursor]
  · simp

/-! ## 3. Steps -/

/-- A move takes the anchor no further than to the next composite. -/
theorem anchor_apply_bounds (a : Automaton) (word : Word) (c : Configuration) (move : Move) :
    anchor word c - 1 ≤ anchor word (c.apply a move) ∧
      anchor word (c.apply a move) ≤ anchor word c + 1 := by
  have hhead := Configuration.head_apply_bounds a c move
  unfold anchor
  omega

/-- A window has one composite or two. -/
theorem length_windowed : (windowed a v word c move).left.length =
    (windowEnd a word c move - windowStart a word c move).toNat := length_row _ _ _

theorem windowed_hasWidth : (windowed a v word c move).HasWidth := by
  have hanchor := anchor_apply_bounds a word c move
  have hlimit : Production.widthLimit = 3 := rfl
  unfold Production.HasWidth
  rw [length_windowed, hlimit]
  unfold windowEnd windowStart
  omega

/-- **A move is the only replacement that a transition production can make.** -/
theorem appliesOnlyAt (ha : a.WellFormed) (hm : a.boundary = .markers left right)
    (hword : a.Takes word) (h : Mirrors a (.ofAutomaton a left right) word d c)
    (hmove : c.pending? a = some move) :
    Derivation.AppliesOnlyAt (Grammar.ofAutomaton a) d
      (windowed a (.ofAutomaton a left right) word c move)
      (beforeWindow a (.ofAutomaton a left right) word c move)
      (behindWindow a (.ofAutomaton a left right) word word.length c move) := by
  have hanchor := (anchor_bounds hword.1 c).2
  have hend := windowEnd_le a hword.1 c move
  refine ⟨?_, windowed_hasWidth, ?_, ?_⟩
  · rw [mem_transition hm]
    exact windowed_mem ha hm hword h.fenced hmove
  · rw [h.form_eq, encode_eq_around hword.1 hend]
  · intro p' hp' before' behind' hform
    rw [mem_transition hm] at hp'
    rw [h.form_eq, ← List.append_nil (encode _ _ _ _ _)] at hform
    obtain ⟨move', hmove', -, hp, hbefore, -⟩ :=
      window_of_occurs ha hm hword h.fenced (Nat.le_refl _) hanchor (by simp) hp' hform
    rw [hmove] at hmove'
    cases hmove'
    exact ⟨hp, hbefore⟩

/-- The window is a site, and the cursor follows the anchor. -/
theorem site_mem (hm : a.boundary = .markers left right) (hne : word ≠ [])
    (h : Mirrors a v word d c) (move : Move) :
    ⟨(beforeWindow a v word c move).length, (windowed a v word c move).left.length,
      (anchor word (c.apply a move) - 1).toNat⟩ ∈
      Derivation.sites (Grammar.ofAutomaton a) d := by
  have hlow := (anchor_bounds hne c).1
  have hlow' := (anchor_bounds hne (c.apply a move)).1
  have hnear := anchor_apply_bounds a word c move
  rw [Derivation.mem_sites_iff, kind_eq hm, h.cursor_eq, length_windowed, beforeWindow, length_row]
  simp only [GrammarKind.leftStepWidth, Derivation.Site.mk.injEq]
  unfold windowEnd windowStart
  omega

/-- **A move is a step of the derivation.** -/
theorem step_of_move (ha : a.WellFormed) (hm : a.boundary = .markers left right)
    (hword : a.Takes word) (h : Mirrors a (.ofAutomaton a left right) word d c)
    (hmove : c.pending? a = some move) :
    ∃ d', Derivation.step (Grammar.ofAutomaton a) d = .ok (some d') ∧
      Mirrors a (.ofAutomaton a left right) word d' (c.apply a move) := by
  have hend := windowEnd_le a hword.1 c move
  refine ⟨_, Derivation.step_of_unique (appliesOnlyAt ha hm hword h hmove)
    (site_mem hm hword.1 h move), ?_, rfl, ?_, h.fenced.apply ha hm hmove⟩
  · exact (encode_apply_eq_around hword.1 (Nat.le_refl _) hend).symm
  · rw [Configuration.steps_apply, ← h.steps_eq]
    rfl

/-- Without a move no transition production applies. -/
theorem not_occurs_of_halted (ha : a.WellFormed) (hm : a.boundary = .markers left right)
    (hword : a.Takes word) (h : Mirrors a (.ofAutomaton a left right) word d c)
    (hhalt : c.pending? a = none) :
    ∀ p ∈ (Grammar.ofAutomaton a).transition, ∀ before behind,
      d.form ≠ before ++ p.left ++ behind := by
  intro p hp before behind hform
  rw [mem_transition hm] at hp
  rw [h.form_eq, ← List.append_nil (encode _ _ _ _ _)] at hform
  obtain ⟨move, hmove, -⟩ := window_of_occurs ha hm hword h.fenced (Nat.le_refl _)
    (anchor_bounds hword.1 c).2 (by simp) hp hform
  rw [hhalt] at hmove
  cases hmove

/-- **Without a move the derivation stops.** -/
theorem step_of_halted (ha : a.WellFormed) (hm : a.boundary = .markers left right)
    (hword : a.Takes word) (h : Mirrors a (.ofAutomaton a left right) word d c)
    (hhalt : c.pending? a = none) : Derivation.step (Grammar.ofAutomaton a) d = .ok none :=
  Derivation.step_of_absent (not_occurs_of_halted ha hm hword h hhalt)

/-! ## 4. The end of a simulation -/

/-- The row around the composite that carries the state. -/
theorem Mirrors.form_eq_around (hne : word ≠ []) (h : Mirrors a v word d c) : d.form =
    row (symbolAt a v word c) 1 (anchor word c - 1).toNat ++
      carrying v (headPlace word c) c.state (c.symbol a (anchor word c))
        (letterAt word (anchor word c)) ::
      row (symbolAt a v word c) (anchor word c + 1)
        (word.length + 1 - (anchor word c + 1)).toNat := by
  rw [h.form_eq, encode_eq_around_anchor hne h.fenced (anchor_bounds hne c).2]

/-- The symbol under the cursor is the composite that carries the state. -/
theorem getElem?_cursor (hne : word ≠ []) (h : Mirrors a v word d c) :
    d.form[d.cursor]? = some (carrying v (headPlace word c) c.state (c.symbol a (anchor word c))
      (letterAt word (anchor word c))) := by
  rw [h.form_eq_around hne, h.cursor_eq, List.getElem?_append_right (by simp)]
  simp

/-- The state is the first label of the composite that names one. -/
theorem stateCarried_eq (ha : a.WellFormed) (hm : a.boundary = .markers left right)
    (hword : a.Takes word) (h : Mirrors a (.ofAutomaton a left right) word d c) :
    Derivation.stateCarried (Grammar.ofAutomaton a) d = .ok c.state := by
  have hv := clear_ofAutomaton ha hm
  obtain ⟨hlow, hhigh⟩ := anchor_bounds hword.1 c
  have hx := h.fenced.symbol_mem _ hlow hhigh
  have hinputs : ∀ letter ∈ word, letter ∈ (Vocabulary.ofAutomaton a left right).inputs := hword.2
  have hl := hv.input_mem_cells _ (letterAt_mem hinputs hlow hhigh)
  have hbefore := List.find?_eq_none.mpr (hv.before_not_state hx hl (headPlace word c))
  have hfind : (carrying (.ofAutomaton a left right) (headPlace word c) c.state
      (c.symbol a (anchor word c)) (letterAt word (anchor word c))).labels.find? a.isState =
        some c.state := by
    show ((headPlace word c).before _ _ _ ++ c.state :: _).find? a.isState = _
    rw [List.find?_append, hbefore, Option.none_or, List.find?_cons_of_pos h.fenced.isState]
  simp only [Derivation.stateCarried, getElem?_cursor hword.1 h, Option.bind_some, automaton_eq hm,
    hfind]

/-- **The verdict on a derivation is that on the configuration.** -/
theorem conclude_eq (ha : a.WellFormed) (hm : a.boundary = .markers left right)
    (hword : a.Takes word) (h : Mirrors a (.ofAutomaton a left right) word d c) :
    ∃ fuel trace, Derivation.conclude (Grammar.ofAutomaton a) fuel word d =
      some (.ok (.ofHalt a word c trace)) := by
  have hv := clear_ofAutomaton ha hm
  have hauto : (Grammar.ofAutomaton a).automaton = a := automaton_eq hm
  have hspelled : (reading a (.ofAutomaton a left right)).spelled d.form = word := by
    rw [h.form_eq]
    exact (spelled_encode hv hword.2 h.fenced (Nat.le_refl _)).trans List.take_length
  have hconclude := Derivation.conclude_eq_ofHalt _ (stateCarried_eq ha hm hword h) h.steps_eq
    (fun p hp => spelled_recovery ha hm ((mem_recovery hm).mp hp)) hspelled
  rw [hauto] at hconclude
  exact hconclude fun hq => recoverWord_encode ha hm hword h.fenced hq h.form_eq h.cursor_eq

/-- **The grammar of a well-formed bounded automaton is in lock-step with it.**  No configuration is
at an edge. -/
theorem lockStep (ha : a.WellFormed) (hm : a.boundary = .markers left right)
    (hword : a.Takes word) :
    LockStep a (Grammar.ofAutomaton a) word
      (fun _ => Mirrors a (.ofAutomaton a left right) word) (fun _ _ => none) where
  automaton_eq := automaton_eq hm
  generated := exists_mirrors_ofWord ha hm hword
  steps_eq := Mirrors.steps_eq
  moved h hmove _ := step_of_move ha hm hword h hmove
  stuck h hstuck := step_of_halted ha hm hword h (hstuck.resolve_right fun hedge => hedge rfl)
  missing {padding d c} _ _ := by
    have hblank : (Grammar.ofAutomaton a).automaton.blank? = none := by
      rw [automaton_eq hm, Automaton.blank?, hm]
    simp only [Derivation.missingSide?, hblank]
    cases c.pending? a <;> rfl
  edge_left hedge := by cases hedge
  edge_right hedge := by cases hedge
  concluded := conclude_eq ha hm hword

end TapeGrammar.ContextSensitive
