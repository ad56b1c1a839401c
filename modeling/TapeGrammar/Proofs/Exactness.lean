import TapeGrammar.Proofs.ContextSensitive.Language
import TapeGrammar.Proofs.ContextSensitive.Mirror
import TapeGrammar.Proofs.Steps
import TapeGrammar.Proofs.Unrestricted.Language
import TapeGrammar.Proofs.Unrestricted.Mirror

/-!
# The search is exact

A derivation looks a stretch of symbols up at a position and replaces the leftmost occurrence of the
stretch in the whole form, and which stretch is looked up first is a matter of the order of the sites.
Neither makes a difference for a well-formed automaton.

As long as the machine is simulated, at most one transition production applies to the form, and at one
position (`SearchExact`).  The position is around the one symbol that carries a state, and that is
where the cursor is (`CursorOn`).  While the word is recovered many productions may apply, but the two
symbols that a scan looks at do not occur before the position that it has come to
(`RecoveryInPlace`).

What this rests on is different for the two kinds of grammar, and is gathered for each of them from the
configuration that the derivation mirrors (sections 3 and 4).
-/

namespace TapeGrammar

variable {a : Automaton} {g : Grammar} {d : Derivation} {p : Production} {before behind : Form}

namespace Derivation

/-! ## 1. The search for a transition production -/

/-- A transition production applies to a form at a position. -/
def Applicable (g : Grammar) (form : Form) (p : Production) (i : Nat) : Prop :=
  p ∈ g.transition ∧ form.stretch? i p.left.length = some p.left

/-- The derivation after a step that replaces the left side of a production at a position. -/
def stepped (d : Derivation) (p : Production) (i next : Nat) : Derivation where
  traced := ⟨d.form.splice i p.left.length p.right, d.trace.push p⟩
  cursor := next
  steps := d.steps + 1

/-- **The search around the cursor finds what applies anywhere.** -/
structure SearchExact (g : Grammar) (d : Derivation) : Prop where
  /-- One production applies at most, and at one position. -/
  unique : ∀ {p p' : Production} {i i' : Nat}, Applicable g d.form p i → Applicable g d.form p' i' →
    p = p' ∧ i = i'
  /-- A step is made exactly if a production applies, -/
  moves_iff : (∃ d', step g d = .ok (some d')) ↔ ∃ p i, Applicable g d.form p i
  /-- and none is made exactly if no production does. -/
  stops_iff : step g d = .ok none ↔ ¬ ∃ p i, Applicable g d.form p i
  /-- The step replaces the left side of the production at the position. -/
  makes : ∀ {p : Production} {i : Nat}, Applicable g d.form p i →
    ∃ next, step g d = .ok (some (d.stepped p i next))
  /-- The sites may be tried in any order. -/
  order : ∀ {tried : List Site}, tried.Perm (sites g d) → stepAmong g d tried = step g d
  /-- Where a production is found at a site its leftmost occurrence is there. -/
  in_place : ∀ {site : Site} {left right : Form}, site ∈ sites g d →
    d.form.stretch? site.start site.width = some left → g.transition.first? left = some right →
      d.form.find? left = some site.start ∧
        stepAt g d site = .ok (some (d.stepped ⟨left, right⟩ site.start site.next))

theorem applicable_iff {form : Form} {i : Nat} : Applicable g form p i ↔ p ∈ g.transition ∧
    ∃ before behind, form = before ++ p.left ++ behind ∧ before.length = i := by
  rw [Applicable, Form.stretch?_eq_some_iff]
  simp only [and_true]

/-- What is found at a site applies there. -/
theorem applicable_of_site {site : Site} {left right : Form}
    (hstretch : d.form.stretch? site.start site.width = some left)
    (hfirst : g.transition.first? left = some right) :
    Applicable g d.form ⟨left, right⟩ site.start := by
  obtain ⟨before, behind, hmem, hform, hstart, -⟩ := mem_of_site hstretch hfirst
  exact applicable_iff.mpr ⟨hmem, before, behind, hform, hstart⟩

theorem AppliesOnlyAt.applicable_iff (h : AppliesOnlyAt g d p before behind) {p' : Production}
    {i : Nat} : Applicable g d.form p' i ↔ p' = p ∧ i = before.length := by
  rw [Derivation.applicable_iff]
  constructor
  · rintro ⟨hmem, before', behind', hform, rfl⟩
    obtain ⟨rfl, rfl⟩ := h.unique p' hmem before' behind' hform
    exact ⟨rfl, rfl⟩
  · rintro ⟨rfl, rfl⟩
    exact ⟨h.mem, before, behind, h.form_eq, rfl⟩

theorem AppliesOnlyAt.replaced_eq (h : AppliesOnlyAt g d p before behind) (next : Nat) :
    d.replaced p before behind next = d.stepped p before.length next := by
  rw [replaced, stepped, h.form_eq, Form.splice_append]

/-- **Where one production applies at one place, and the place is a site, the search is exact.** -/
theorem AppliesOnlyAt.searchExact (h : AppliesOnlyAt g d p before behind) {next : Nat}
    (hsite : ⟨before.length, p.left.length, next⟩ ∈ sites g d) : SearchExact g d := by
  have hstep := step_of_unique h hsite
  have happlies : Applicable g d.form p before.length := h.applicable_iff.mpr ⟨rfl, rfl⟩
  constructor
  case unique =>
    intro p₁ p₂ i₁ i₂ h₁ h₂
    obtain ⟨rfl, rfl⟩ := h.applicable_iff.mp h₁
    obtain ⟨rfl, rfl⟩ := h.applicable_iff.mp h₂
    exact ⟨rfl, rfl⟩
  case moves_iff => exact iff_of_true ⟨_, hstep⟩ ⟨p, _, happlies⟩
  case stops_iff =>
    refine iff_of_false ?_ (not_not.mpr ⟨p, _, happlies⟩)
    rw [hstep]
    exact fun hnone => by cases hnone
  case makes =>
    intro p' i happlies'
    obtain ⟨rfl, rfl⟩ := h.applicable_iff.mp happlies'
    exact ⟨next, by rw [hstep, h.replaced_eq]⟩
  case order =>
    intro tried hperm
    rw [hstep]
    exact stepAmong_of_appliesOnlyAt h (fun site hmem => hperm.mem_iff.mp hmem)
      (hperm.mem_iff.mpr hsite)
  case in_place =>
    intro site left right hmem hstretch hfirst
    obtain ⟨hp, hstart⟩ := h.applicable_iff.mp (applicable_of_site hstretch hfirst)
    obtain ⟨-, -, -, -, hwidth⟩ := Form.stretch?_eq_some_iff.mp hstretch
    have hne : p.left ≠ [] := List.ne_nil_of_length_pos h.width.1
    have hat := stepAt_of_unique h site.next
    -- what is found at the site is the one production, so the site has its stretch
    subst hp
    obtain ⟨start, width, next'⟩ := site
    cases hstart
    cases hwidth
    refine ⟨?_, by rw [hat, h.replaced_eq]⟩
    rw [h.form_eq]
    exact Form.find?_of_leftmost hne h.leftmost

/-- **Where no transition production applies the search is exact.** -/
theorem searchExact_of_not_occurs
    (h : ∀ p ∈ g.transition, ∀ before behind, d.form ≠ before ++ p.left ++ behind) :
    SearchExact g d := by
  have hnone : ∀ p i, ¬ Applicable g d.form p i := by
    intro p i happlies
    obtain ⟨hmem, before, behind, hform, -⟩ := applicable_iff.mp happlies
    exact h p hmem before behind hform
  have hstop := step_of_absent h
  constructor
  case unique => exact fun happlies => (hnone _ _ happlies).elim
  case moves_iff =>
    refine iff_of_false ?_ fun ⟨p, i, happlies⟩ => hnone p i happlies
    rintro ⟨d', hstep⟩
    rw [hstop] at hstep
    cases hstep
  case stops_iff => exact iff_of_true hstop fun ⟨p, i, happlies⟩ => hnone p i happlies
  case makes => exact fun happlies => (hnone _ _ happlies).elim
  case order =>
    intro tried _
    rw [hstop, stepAmong_of_not_occurs h]
  case in_place =>
    intro site left right _ hstretch hfirst
    exact (hnone _ _ (applicable_of_site hstretch hfirst)).elim

/-! ## 2. The cursor and recovery -/

/-- **The cursor is on the only symbol that carries a state**, and this state is `q`. -/
structure CursorOn (g : Grammar) (d : Derivation) (q : String) : Prop where
  carried : stateCarried g d = .ok q
  only : ∀ {i : Nat} {s : Symbol}, d.form[i]? = some s →
    (ContextSensitive.Carries g.automaton s ↔ i = d.cursor)

/-- Where recovery begins with the composite under the cursor, and a production is found for it, this
composite is replaced: it does not occur earlier. -/
def AnchorInPlace (g : Grammar) (d : Derivation) (begun : TracedForm) : Prop :=
  g.kind = .contextSensitive → ∀ left right, d.form.stretch? d.cursor 1 = some left →
    g.recovery.first? left = some right → d.form.find? left = some d.cursor ∧
      begun = ⟨d.form.splice d.cursor 1 right, d.trace.push ⟨left, right⟩⟩

/-- **Recovery replaces what it looks at.**  It begins with `begun`, the scan to the right ends with
`passed`, and at every position that a scan comes to the replacement is in place. -/
structure RecoveryInPlace (g : Grammar) (d : Derivation) (begun passed : TracedForm) : Prop where
  begins : recoverState g d = .ok begun
  anchor : AnchorInPlace g d begun
  right : ∀ {i : Nat} {t : TracedForm}, ScansRight g d.cursor begun i t → InPlace g i t
  turns : ∃ fuel, recoverRight g fuel d.cursor begun = some (.ok passed)
  left : ∀ {i : Nat} {t : TracedForm}, ScansLeft g d.cursor passed (i + 1) t → InPlace g i t
  ends : ∃ t, recoverLeft g d.cursor passed = .ok t

/-- The invariants of the scans put every replacement of them in place. -/
theorem Scan.recoveryInPlace {Right Left : Nat → Form → Prop} {begun : TracedForm}
    (hscan : Scan g d.cursor Right Left) (hg : Recovers g) (hbegin : recoverState g d = .ok begun)
    (hanchor : AnchorInPlace g d begun) (hright : Right d.cursor begun.form) :
    ∃ passed, RecoveryInPlace g d begun passed := by
  obtain ⟨fuel, passed, hrun, hleft⟩ := hscan.recoverRight_ends hg hright
  obtain ⟨t, hend, -⟩ := hscan.recoverLeft_ends hleft
  exact ⟨passed, hbegin, hanchor, hscan.inPlace_right hright, ⟨fuel, hrun⟩,
    hscan.inPlace_left hleft, t, hend⟩

end Derivation

open TapeGrammar.Derivation (SearchExact CursorOn RecoveryInPlace)

/-- **A moment of the simulation at which nothing is left to chance**: its next step is exact, the
cursor is where the state is and follows it, and if the state is final recovery is in place. -/
structure Exact (a : Automaton) (g : Grammar) (d : Derivation) (c : Configuration) : Prop where
  search : SearchExact g d
  cursor : CursorOn g d c.state
  follows : ∀ {d' : Derivation}, Derivation.step g d = .ok (some d') →
    ∃ move, c.pending? a = some move ∧ CursorOn g d' move.next
  recovery : a.isFinal c.state = true → ∃ begun passed, RecoveryInPlace g d begun passed

/-- **Along a lock-step every moment of the simulation is exact** if whatever mirrors a configuration has
an exact search, the cursor on the state, and recovery in place. -/
theorem LockStep.exact_of_after? {word : Word} {Mirrors : Padding → Derivation → Configuration → Prop}
    {edge? : Padding → Configuration → Option Direction} {d₀ : Derivation} {n : Nat}
    (L : LockStep a g word Mirrors edge?) (padding : Padding)
    (h₀ : Mirrors padding d₀ (.ofWord a word))
    (hsearch : ∀ {d c}, Mirrors padding d c → SearchExact g d)
    (hcursor : ∀ {d c}, Mirrors padding d c → CursorOn g d c.state)
    (hrecovery : ∀ {d c}, Mirrors padding d c → a.isFinal c.state = true →
      ∃ begun passed, RecoveryInPlace g d begun passed)
    (h : Derivation.after? g n d₀ = .ok (some d)) :
    ∃ c, Configuration.after? a n (.ofWord a word) = some c ∧ Exact a g d c := by
  obtain ⟨c, hc, hmirrors⟩ := L.mirrors_of_after? h₀ h
  refine ⟨c, hc, hsearch hmirrors, hcursor hmirrors, fun hstep => ?_, hrecovery hmirrors⟩
  obtain ⟨move, hmove, -, hnext⟩ := L.move_of_step hmirrors hstep
  exact ⟨move, hmove, hcursor hnext⟩

/-! ## 3. Unrestricted grammars -/

namespace Unrestricted

variable {blank : String} {word : Word} {padding : Padding} {c : Configuration}

/-- No cell carries a state. -/
theorem IsCell.not_carries (ha : a.WellFormed) {s : Symbol} (hs : IsCell a s) :
    ¬ ContextSensitive.Carries a s := by
  obtain ⟨origin, horigin, x, hx, rfl⟩ := hs
  rintro ⟨label, hlabel, hq⟩
  rcases List.mem_cons.mp hlabel with rfl | hlabel
  · rcases mem_origins_iff.mp horigin with hletter | rfl
    · exact ha.state_ne_symbol hq (Automaton.isSymbol_of_mem_inputs hletter) rfl
    · rw [ha.epsilon_distinct.2] at hq
      cases hq
  · rw [List.mem_singleton.mp hlabel] at hq
    exact ha.state_ne_symbol hq (Automaton.isSymbol_of_mem_tape hx) rfl

section

variable (ha : a.WellFormed) (hb : a.boundary = .blank blank) (hword : a.Takes word)
  (h : Mirrors a word padding d c)

include hb hword h

/-- A production applies if there is a move with room for it, and nowhere else. -/
theorem Mirrors.searchExact : SearchExact (Grammar.ofAutomaton a) d := by
  by_cases hstuck : c.pending? a = none ∨ edge? a word padding c ≠ none
  · exact Derivation.searchExact_of_not_occurs (not_occurs_of_stuck hb h hstuck)
  · rw [not_or, not_not] at hstuck
    obtain ⟨move, hmove⟩ := Option.ne_none_iff_exists'.mp hstuck.1
    have hroom := room_of_edge? h hmove hstuck.2
    exact (appliesOnlyAt hb hword.2 h hmove hroom).searchExact (site_mem hb h hroom)

include ha in
/-- The token is the only symbol that carries a state. -/
theorem Mirrors.cursorOn : CursorOn (Grammar.ofAutomaton a) d c.state := by
  refine ⟨stateCarried_eq hb h, fun {i s} hs => ?_⟩
  have hcells := isCell_row hword.2 h.within
  rw [h.form_eq, encode] at hs
  rw [automaton_eq hb, h.cursor_eq]
  have hiff := iff_of_split (p := ContextSensitive.Carries a)
    ⟨c.state, List.mem_singleton.mpr rfl, h.within.isState⟩
    (fun s hs => (hcells _ _ s hs).not_carries ha) (fun s hs => (hcells _ _ s hs).not_carries ha) hs
  rwa [length_row] at hiff

theorem Mirrors.recoveryInPlace (hq : a.isFinal c.state = true) :
    ∃ begun passed, RecoveryInPlace (Grammar.ofAutomaton a) d begun passed := by
  have hcells := isCell_row hword.2 h.within
  have hscan := scan hb hq (hcells (-(padding.left : Int)) (c.head - -(padding.left : Int)).toNat)
  have hbegin : Derivation.recoverState (Grammar.ofAutomaton a) d = .ok d.traced := by
    simp only [Derivation.recoverState, kind_eq hb]
  have hfirst := spreads_first (a := a) (show d.traced.form = _ from h.form_eq) (hcells _ _)
  rw [length_row, ← h.cursor_eq] at hscan hfirst
  have hanchor : Derivation.AnchorInPlace (Grammar.ofAutomaton a) d d.traced := by
    intro hkind
    rw [kind_eq hb] at hkind
    cases hkind
  exact ⟨d.traced, hscan.recoveryInPlace (recovers_ofAutomaton a) hbegin hanchor hfirst⟩

end

end Unrestricted

/-! ## 4. Context-sensitive grammars -/

namespace ContextSensitive

variable {left right : String} {word : Word} {c : Configuration}

/-- Recovery from a row of cells around a final state is in place: the cells before the composite carry
no state, so that it does not occur among them. -/
theorem recoveryInPlace_cells {q x letter : String} {place : Place} (ha : a.WellFormed)
    (hm : a.boundary = .markers left right)
    (hbefore : ∀ s ∈ before, IsEarlier (.ofAutomaton a left right) s)
    (hbehind : ∀ s ∈ behind, IsLater (.ofAutomaton a left right) s) (hq : a.isFinal q = true)
    (hx : x ∈ a.cells) (hl : letter ∈ a.inputs)
    (hform : d.form = before ++ [carrying (.ofAutomaton a left right) place q x letter] ++ behind)
    (hcursor : d.cursor = before.length) :
    ∃ begun passed, RecoveryInPlace (Grammar.ofAutomaton a) d begun passed := by
  have hfirst := first?_carrying ha hm hq place hx hl
  have hnotmem : carrying (.ofAutomaton a left right) place q x letter ∉ before :=
    carrying_not_mem_earlier (clear_ofAutomaton ha hm) (Automaton.isState_of_isFinal hq) hbefore
  have hbegin := recoverState_of_first? hm hform hcursor hfirst hnotmem
  have hscan := scan ha hm hbefore
  have hspreads : Spreads (.ofAutomaton a left right) before before.length
      (before ++ [.terminal letter] ++ behind) := spreads_first hl hbehind
  rw [← hcursor] at hscan hspreads
  refine ⟨_, hscan.recoveryInPlace (recovers_ofAutomaton a) hbegin ?_ hspreads⟩
  intro _ anchored new hstretch hnew
  have hunder : d.form.stretch? d.cursor 1 =
      some [carrying (.ofAutomaton a left right) place q x letter] :=
    Form.stretch?_eq_some_iff.mpr ⟨before, behind, hform, hcursor.symm, rfl⟩
  obtain rfl := Option.some.inj (hunder.symm.trans hstretch)
  obtain rfl := Option.some.inj (hfirst.symm.trans hnew)
  have hsplice : d.form.splice d.cursor 1 [.terminal letter] =
      before ++ [.terminal letter] ++ behind := by
    rw [hform, hcursor]
    exact Form.splice_append before [_] behind _
  refine ⟨?_, by rw [hsplice]⟩
  rw [hform, hcursor]
  exact Form.find?_of_leftmost (List.cons_ne_nil _ _) (Form.leftmost_singleton hnotmem)

section

variable (ha : a.WellFormed) (hm : a.boundary = .markers left right) (hword : a.Takes word)
  (h : Mirrors a (.ofAutomaton a left right) word d c)

include ha hm hword h

/-- A production applies if there is a move, and nowhere else. -/
theorem Mirrors.searchExact : SearchExact (Grammar.ofAutomaton a) d := by
  cases hmove : c.pending? a with
  | none => exact Derivation.searchExact_of_not_occurs (not_occurs_of_halted ha hm hword h hmove)
  | some move => exact (appliesOnlyAt ha hm hword h hmove).searchExact (site_mem hm hword.1 h move)

/-- The composite at the anchor is the only one that carries a state. -/
theorem Mirrors.cursorOn : CursorOn (Grammar.ofAutomaton a) d c.state := by
  refine ⟨stateCarried_eq ha hm hword h, fun {i s} hs => ?_⟩
  have hinputs : ∀ letter ∈ word, letter ∈ (Vocabulary.ofAutomaton a left right).inputs := hword.2
  obtain ⟨hlow, hhigh⟩ := anchor_bounds hword.1 c
  have hplain : ∀ {i : Int}, 1 ≤ i → i ≤ word.length → i ≠ anchor word c →
      ¬ Carries a (symbolAt a (.ofAutomaton a left right) word c i) :=
    not_carries_symbolAt (clear_ofAutomaton ha hm) hinputs h.fenced
  rw [h.form_eq_around hword.1] at hs
  rw [automaton_eq hm, h.cursor_eq]
  have hiff := iff_of_split (p := Carries a) (carries_carrying h.fenced.isState) ?_ ?_ hs
  · rwa [length_row] at hiff
  · intro s hs
    obtain ⟨j, hj, hj', rfl⟩ := mem_row hs
    exact hplain hj (by omega) (by omega)
  · intro s hs
    obtain ⟨j, hj, hj', rfl⟩ := mem_row hs
    exact hplain (by omega) (by omega) (by omega)

theorem Mirrors.recoveryInPlace (hq : a.isFinal c.state = true) :
    ∃ begun passed, RecoveryInPlace (Grammar.ofAutomaton a) d begun passed := by
  have hinputs : ∀ letter ∈ word, letter ∈ (Vocabulary.ofAutomaton a left right).inputs := hword.2
  obtain ⟨hlow, hhigh⟩ := anchor_bounds hword.1 c
  have hform := h.form_eq_around hword.1
  rw [List.append_cons] at hform
  refine recoveryInPlace_cells ha hm (isEarlier_row hinputs hword.1 h.fenced)
    (isLater_row hinputs hword.1 h.fenced) hq (h.fenced.symbol_mem _ hlow hhigh)
    (letterAt_mem hinputs hlow hhigh) hform ?_
  rw [length_row, h.cursor_eq]

end

end ContextSensitive

/-! ## 5. Any automaton -/

/-- **The search is exact at every moment of a simulation.**  Generation leads to a derivation `d₀`, and
what the simulation of a check ends with is reached from it by a number of steps.  After any number of
steps the transition productions apply to the form in one way at most, the search makes exactly the
replacement that there is, whatever the order of the sites, and the cursor follows the only symbol that
carries a state.  If this state is final, every replacement of the recovery is where it looks. -/
theorem search_exact {word : Word} (ha : a.WellFormed) (hword : a.Takes word) (padding : Padding) :
    ∃ d₀, Derivation.ofWord (Grammar.ofAutomaton a) word padding = .ok d₀ ∧
      (∀ limit fuel d, Derivation.toHalt (Grammar.ofAutomaton a) limit fuel d₀ = some (.ok d) →
        ∃ n, Derivation.after? (Grammar.ofAutomaton a) n d₀ = .ok (some d)) ∧
      ∀ n d, Derivation.after? (Grammar.ofAutomaton a) n d₀ = .ok (some d) →
        ∃ c, Configuration.after? a n (.ofWord a word) = some c ∧
          Exact a (Grammar.ofAutomaton a) d c := by
  cases hboundary : a.boundary with
  | blank blank =>
    have L := Unrestricted.lockStep ha hboundary hword
    obtain ⟨d₀, hgenerated, h₀⟩ := L.generated padding
    refine ⟨d₀, hgenerated, fun _ _ _ => Derivation.exists_after?_of_toHalt, fun n d hd => ?_⟩
    exact L.exact_of_after? padding h₀ (fun h => h.searchExact hboundary hword)
      (fun h => h.cursorOn ha hboundary hword) (fun h => h.recoveryInPlace hboundary hword) hd
  | markers left right =>
    have L := ContextSensitive.lockStep ha hboundary hword
    obtain ⟨d₀, hgenerated, h₀⟩ := L.generated padding
    refine ⟨d₀, hgenerated, fun _ _ _ => Derivation.exists_after?_of_toHalt, fun n d hd => ?_⟩
    exact L.exact_of_after? padding h₀ (fun h => h.searchExact ha hboundary hword)
      (fun h => h.cursorOn ha hboundary hword) (fun h => h.recoveryInPlace ha hboundary hword) hd

set_option maxRecDepth 100000 in
/-- With one padding cell the walker steps onto it and back: there the search ends, and what recovers the
number one is in place.  The visitor is in a final state after two steps on the number two, and both
its next step and a recovery at this moment are exact. -/
theorem walker_search_exact :
    (∃ d₀ d, Derivation.ofWord (Grammar.ofAutomaton Unrestricted.walker) ["1"] ⟨0, 1⟩ = .ok d₀ ∧
      Derivation.after? (Grammar.ofAutomaton Unrestricted.walker) 2 d₀ = .ok (some d) ∧
      CursorOn (Grammar.ofAutomaton Unrestricted.walker) d "q1" ∧
      (¬ ∃ p i, Derivation.Applicable (Grammar.ofAutomaton Unrestricted.walker) d.form p i) ∧
      ∃ begun passed, RecoveryInPlace (Grammar.ofAutomaton Unrestricted.walker) d begun passed) ∧
    ∃ d₀ d, Derivation.ofWord (Grammar.ofAutomaton ContextSensitive.visitor) ["1", "1"] ⟨0, 0⟩ =
        .ok d₀ ∧
      Derivation.after? (Grammar.ofAutomaton ContextSensitive.visitor) 2 d₀ = .ok (some d) ∧
      (∃ p i, Derivation.Applicable (Grammar.ofAutomaton ContextSensitive.visitor) d.form p i) ∧
      ∃ begun passed, RecoveryInPlace (Grammar.ofAutomaton ContextSensitive.visitor) d begun passed := by
  constructor
  · obtain ⟨d₀, hgenerated, -, hexact⟩ :=
      search_exact (a := Unrestricted.walker) (by decide) (by decide : Unrestricted.walker.Takes ["1"])
        ⟨0, 1⟩
    cases hgenerated
    obtain ⟨c, hc, h⟩ := hexact 2 _ rfl
    cases hc
    exact ⟨_, _, rfl, rfl, h.cursor, h.search.stops_iff.mp (by decide), h.recovery (by decide)⟩
  · obtain ⟨d₀, hgenerated, -, hexact⟩ :=
      search_exact (a := ContextSensitive.visitor) (by decide)
        (by decide : ContextSensitive.visitor.Takes ["1", "1"]) ⟨0, 0⟩
    cases hgenerated
    obtain ⟨c, hc, h⟩ := hexact 2 _ rfl
    cases hc
    exact ⟨_, _, rfl, rfl, h.search.moves_iff.mp ⟨_, rfl⟩, h.recovery (by decide)⟩

end TapeGrammar
