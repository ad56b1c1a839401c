import TapeGrammar.Derivation.Simulation
import TapeGrammar.Proofs.Rewriting
import TapeGrammar.Proofs.Table

/-!
# The search at the sites

The simulation looks productions up at three sites around the cursor, and then replaces the leftmost
occurrence in the whole form.  Nothing in this search is exact by itself: another site may come
first, and another occurrence may be further to the left.

It is exact where the transition productions apply to the form in ONE way at most, with one
production and at one place.  Then the search makes that replacement if the place is a site
(`step_of_unique`), and stops if there is none (`step_of_absent`).  What makes the way unique is a
matter of the form and not of the search.
-/

namespace TapeGrammar.Derivation

variable {g : Grammar} {d : Derivation} {p : Production} {before behind : Form}

/-! ## 1. One site -/

/-- What is found at a site is a transition production that applies there. -/
theorem mem_of_site {site : Site} {left right : Form}
    (hstretch : Form.stretch? d.form site.start site.width = some left)
    (hfirst : g.transition.first? left = some right) :
    ∃ before behind, (⟨left, right⟩ : Production) ∈ g.transition ∧
      d.form = before ++ left ++ behind ∧ before.length = site.start ∧
        left.length = site.width := by
  obtain ⟨before, behind, hform, hstart, hwidth⟩ := Form.stretch?_eq_some_iff.mp hstretch
  exact ⟨before, behind, Productions.mem_of_first? hfirst, hform, hstart, hwidth⟩

/-- A site at which no production applies is passed over. -/
theorem stepAt_of_absent {site : Site}
    (h : ∀ p ∈ g.transition, ∀ before behind, d.form = before ++ p.left ++ behind →
      before.length = site.start → p.left.length = site.width → False) :
    stepAt g d site = .ok none := by
  unfold stepAt
  split
  · rfl
  · rename_i left hstretch
    split
    · rfl
    · rename_i right hfirst
      obtain ⟨before, behind, hmem, hform, hstart, hwidth⟩ := mem_of_site hstretch hfirst
      exact (h _ hmem before behind hform hstart hwidth).elim

/-- The production `p` applies behind `before`, and no transition production applies elsewhere. -/
structure AppliesOnlyAt (g : Grammar) (d : Derivation) (p : Production)
    (before behind : Form) : Prop where
  mem : p ∈ g.transition
  width : p.HasWidth
  form_eq : d.form = before ++ p.left ++ behind
  unique : ∀ p' ∈ g.transition, ∀ before' behind', d.form = before' ++ p'.left ++ behind' →
    p' = p ∧ before' = before

/-- What applies only at one place occurs there first. -/
theorem AppliesOnlyAt.leftmost (h : AppliesOnlyAt g d p before behind) :
    Form.Leftmost before p.left behind := by
  intro before' behind' heq
  obtain ⟨-, rfl⟩ := h.unique p h.mem before' behind' (h.form_eq.trans heq)
  exact Nat.le_refl _

/-- The derivation after a replacement. -/
def replaced (d : Derivation) (p : Production) (before behind : Form) (next : Nat) : Derivation where
  traced := ⟨before ++ p.right ++ behind, d.trace.push p⟩
  cursor := next
  steps := d.steps + 1

/-- The site of the only production makes the replacement. -/
theorem stepAt_of_unique (h : AppliesOnlyAt g d p before behind) (next : Nat) :
    stepAt g d ⟨before.length, p.left.length, next⟩ =
      .ok (some (d.replaced p before behind next)) := by
  have hstretch : Form.stretch? d.form before.length p.left.length = some p.left :=
    Form.stretch?_eq_some_iff.mpr ⟨before, behind, h.form_eq, rfl, rfl⟩
  have hfirst : g.transition.first? p.left = some p.right := by
    refine Productions.first?_eq_some h.mem ?_
    intro right hmem
    obtain ⟨heq, -⟩ := h.unique _ hmem before behind h.form_eq
    rw [← heq]
  have happly : d.traced.apply p.left p.right =
      .applied ⟨before ++ p.right ++ behind, d.trace.push p⟩ :=
    TracedForm.apply_of_leftmost h.form_eq h.width h.leftmost
  simp only [stepAt, hstretch, hfirst, happly, replaced]

/-- Any other site is passed over. -/
theorem stepAt_of_other (h : AppliesOnlyAt g d p before behind) {site : Site}
    (hne : ¬ (site.start = before.length ∧ site.width = p.left.length)) :
    stepAt g d site = .ok none := by
  refine stepAt_of_absent ?_
  intro p' hmem before' behind' hform hstart hwidth
  obtain ⟨rfl, rfl⟩ := h.unique p' hmem before' behind' hform
  exact hne ⟨hstart.symm, hwidth.symm⟩

/-! ## 2. All sites -/

/-- Sites that are passed over lead nowhere. -/
theorem stepAmong_of_absent {sites : List Site} (h : ∀ site ∈ sites, stepAt g d site = .ok none) :
    stepAmong g d sites = .ok none := by
  induction sites with
  | nil => rfl
  | cons site sites ih =>
    rw [stepAmong, h site (by simp)]
    exact ih fun site hsite => h site (by simp [hsite])

/-- What a search leads to, one of its sites leads to. -/
theorem exists_site_of_stepAmong {sites : List Site} {d' : Derivation}
    (h : stepAmong g d sites = .ok (some d')) :
    ∃ site ∈ sites, stepAt g d site = .ok (some d') := by
  induction sites with
  | nil => cases h
  | cons site sites ih =>
    unfold stepAmong at h
    split at h
    · obtain ⟨site', hmem, hsite'⟩ := ih h
      exact ⟨site', List.mem_cons_of_mem _ hmem, hsite'⟩
    · exact ⟨site, List.mem_cons_self, h⟩

/-- If some site leads to a derivation and no site leads to another, the search leads there. -/
theorem stepAmong_of_unique {sites : List Site} {d' : Derivation}
    (hsome : ∃ site ∈ sites, stepAt g d site = .ok (some d'))
    (hall : ∀ site ∈ sites, stepAt g d site = .ok none ∨ stepAt g d site = .ok (some d')) :
    stepAmong g d sites = .ok (some d') := by
  induction sites with
  | nil =>
    obtain ⟨site, hmem, -⟩ := hsome
    cases hmem
  | cons first sites ih =>
    rw [stepAmong]
    rcases hall first (by simp) with hfirst | hfirst
    · rw [hfirst]
      obtain ⟨site, hmem, hsite⟩ := hsome
      rcases List.mem_cons.mp hmem with rfl | hmem
      · rw [hfirst] at hsite
        cases hsite
      · exact ih ⟨site, hmem, hsite⟩ fun site hmem => hall site (by simp [hmem])
    · rw [hfirst]

theorem mem_sites_iff {site : Site} : site ∈ sites g d ↔
    site = ⟨d.cursor, 1, d.cursor⟩ ∨ site = ⟨d.cursor, 2, d.cursor + 1⟩ ∨
      (0 < d.cursor ∧ site = ⟨d.cursor - 1, g.kind.leftStepWidth, d.cursor - 1⟩) := by
  unfold sites
  split
  · rename_i hpos
    simp [hpos]
  · rename_i hpos
    simp [hpos]

/-- No two sites share their stretch, so a stretch determines where the cursor goes. -/
theorem next_unique {site site' : Site} (h : site ∈ sites g d) (h' : site' ∈ sites g d)
    (hstart : site.start = site'.start) (hwidth : site.width = site'.width) :
    site.next = site'.next := by
  rcases mem_sites_iff.mp h with rfl | rfl | ⟨hpos, rfl⟩ <;>
    rcases mem_sites_iff.mp h' with rfl | rfl | ⟨hpos', rfl⟩ <;>
    simp only at hstart hwidth ⊢ <;> omega

/-- **Any list of sites makes the only replacement**, if it has the site for it: the order in which the
sites are tried is of no importance. -/
theorem stepAmong_of_appliesOnlyAt (h : AppliesOnlyAt g d p before behind) {tried : List Site}
    {next : Nat} (htried : ∀ site ∈ tried, site ∈ sites g d)
    (hsite : ⟨before.length, p.left.length, next⟩ ∈ tried) :
    stepAmong g d tried = .ok (some (d.replaced p before behind next)) := by
  refine stepAmong_of_unique ⟨_, hsite, stepAt_of_unique h next⟩ ?_
  intro site hmem
  by_cases heq : site.start = before.length ∧ site.width = p.left.length
  · obtain ⟨start, width, next'⟩ := site
    obtain ⟨rfl, rfl⟩ := heq
    obtain rfl : next' = next := next_unique (htried _ hmem) (htried _ hsite) rfl rfl
    exact Or.inr (stepAt_of_unique h next')
  · exact Or.inl (stepAt_of_other h heq)

/-- **The search makes the only replacement**, and the cursor goes where its site says. -/
theorem step_of_unique (h : AppliesOnlyAt g d p before behind) {next : Nat}
    (hsite : ⟨before.length, p.left.length, next⟩ ∈ sites g d) :
    step g d = .ok (some (d.replaced p before behind next)) :=
  stepAmong_of_appliesOnlyAt h (fun _ hmem => hmem) hsite

/-- Where no transition production applies no list of sites leads anywhere. -/
theorem stepAmong_of_not_occurs
    (h : ∀ p ∈ g.transition, ∀ before behind, d.form ≠ before ++ p.left ++ behind)
    (tried : List Site) : stepAmong g d tried = .ok none := by
  refine stepAmong_of_absent ?_
  intro site _
  exact stepAt_of_absent fun p hp before behind hform _ _ => h p hp before behind hform

/-- **Where no transition production applies the search ends.** -/
theorem step_of_absent
    (h : ∀ p ∈ g.transition, ∀ before behind, d.form ≠ before ++ p.left ++ behind) :
    step g d = .ok none := stepAmong_of_not_occurs h _

end TapeGrammar.Derivation
