import TapeGrammar.Proofs.Cleanup

/-!
# The two scans of a recovery

Recovery looks two symbols up at a position, and then replaces their leftmost occurrence in the whole
form.  It does what it is meant to do only if that occurrence is at the position, and nothing in the
scans sees to it: it is a matter of what is in the row before the position, and that is another thing on
the way forth and on the way back.

A scan is therefore described by two INVARIANTS, one for each direction, that relate the position to the
form (`Scan`): they tell which two symbols are at the position, that these do not occur earlier, and that
the invariant holds again for what they become.  From this it follows, for any kind of grammar, that the
scan to the right ends, what the scan to the left ends with, and that every replacement of both is in
place (`Scan.inPlace_right`, `Scan.inPlace_left`).
-/

namespace TapeGrammar.Derivation

variable {g : Grammar} {t t' t₀ : TracedForm} {i start : Nat} {form : Form} {after : Form → Prop}

/-! ## 1. Replacements in place -/

/-- **Where a recovery production is found for the two symbols from a position on, it replaces these**:
the two do not occur earlier. -/
def InPlace (g : Grammar) (i : Nat) (t : TracedForm) : Prop :=
  ∀ left right, t.form.stretch? i 2 = some left → g.recovery.first? left = some right →
    t.form.find? left = some i ∧
      recoverAt g i t = .ok ⟨t.form.splice i 2 right, t.trace.push ⟨left, right⟩⟩

/-- What is known of the two symbols at a position of a form, and what holds `after` they have been
treated. -/
inductive Treats (g : Grammar) (i : Nat) (form : Form) (after : Form → Prop) : Prop where
  /-- Recovery does not know them. -/
  | stays (before behind : Form) (s s' : Symbol) (hform : form = before ++ [s, s'] ++ behind)
    (hi : i = before.length) (hnone : g.recovery.first? [s, s'] = none) (hafter : after form)
  /-- Recovery knows them, and they do not occur earlier. -/
  | replaced (before behind new : Form) (s s' : Symbol) (hform : form = before ++ [s, s'] ++ behind)
    (hi : i = before.length) (hfirst : g.recovery.first? [s, s'] = some new)
    (hmin : Form.Leftmost before [s, s'] behind) (hafter : after (before ++ new ++ behind))

theorem stretch?_two {before behind : Form} {s s' : Symbol}
    (hform : form = before ++ [s, s'] ++ behind) :
    form.stretch? before.length 2 = some [s, s'] :=
  Form.stretch?_eq_some_iff.mpr ⟨before, behind, hform, rfl, rfl⟩

/-- Symbols are treated in place. -/
theorem Treats.inPlace (h : Treats g i t.form after) : InPlace g i t := by
  intro left right hstretch hfirst'
  cases h with
  | stays before behind s s' hform hi hnone hafter =>
    rw [hi, stretch?_two hform] at hstretch
    cases hstretch
    rw [hnone] at hfirst'
    cases hfirst'
  | replaced before behind new s s' hform hi hfirst hmin hafter =>
    rw [hi, stretch?_two hform] at hstretch
    cases hstretch
    obtain rfl : new = right := Option.some.inj (hfirst.symm.trans hfirst')
    have hsplice : t.form.splice i 2 new = before ++ new ++ behind := by
      rw [hform, hi]
      exact Form.splice_append before [s, s'] behind new
    rw [hsplice, hi]
    refine ⟨?_, recoverAt_of_first? hform hfirst hmin⟩
    rw [hform]
    exact Form.find?_of_leftmost (List.cons_ne_nil _ _) hmin

/-- Symbols can be treated. -/
theorem Treats.exists_recoverAt (h : Treats g i t.form after) :
    ∃ t', recoverAt g i t = .ok t' ∧ after t'.form := by
  cases h with
  | stays before behind s s' hform hi hnone hafter =>
    exact ⟨t, by rw [hi, recoverAt_of_first?_none hform hnone], hafter⟩
  | replaced before behind new s s' hform hi hfirst hmin hafter =>
    exact ⟨_, by rw [hi, recoverAt_of_first? hform hfirst hmin], hafter⟩

/-- At the last symbol nothing is looked up. -/
theorem inPlace_of_le (h : t.form.length ≤ i + 1) : InPlace g i t := by
  intro left right hstretch
  obtain ⟨before, behind, hform, hbefore, hleft⟩ := Form.stretch?_eq_some_iff.mp hstretch
  have hlength := congrArg List.length hform
  rw [List.length_append, List.length_append] at hlength
  omega

/-! ## 2. The positions of a scan -/

/-- The scan to the right that has begun at `start` with `t₀` is at a position with a form. -/
inductive ScansRight (g : Grammar) (start : Nat) (t₀ : TracedForm) : Nat → TracedForm → Prop where
  | first : ScansRight g start t₀ start t₀
  | next {i i' : Nat} {t t' : TracedForm} (h : ScansRight g start t₀ i t)
    (hround : recoverRightRound g (i, t) = .again (i', t')) : ScansRight g start t₀ i' t'

/-- The scan to the left that has begun before `start` with `t₀` has treated the positions from the
given one on. -/
inductive ScansLeft (g : Grammar) (start : Nat) (t₀ : TracedForm) : Nat → TracedForm → Prop where
  | first : ScansLeft g start t₀ start t₀
  | next {i : Nat} {t t' : TracedForm} (h : ScansLeft g start t₀ (i + 1) t)
    (hat : recoverAt g i t = .ok t') : ScansLeft g start t₀ i t'

/-! ## 3. Invariants -/

/-- **What holds on the way forth and on the way back** over a row in which the state is at `start`. -/
structure Scan (g : Grammar) (start : Nat) (Right Left : Nat → Form → Prop) : Prop where
  right_step : ∀ {i : Nat} {form : Form}, Right i form → i + 1 < form.length →
    Treats g i form (Right (i + 1))
  turn : ∀ {i : Nat} {form : Form}, Right i form → form.length ≤ i + 1 → Left start form
  left_step : ∀ {i : Nat} {form : Form}, Left (i + 1) form → Treats g i form (Left i)

namespace Scan

variable {Right Left : Nat → Form → Prop} (hscan : Scan g start Right Left)

include hscan

/-- A round of the scan to the right keeps its invariant, or ends the scan where the other one can
begin. -/
theorem round_cases (h : Right i t.form) :
    (recoverRightRound g (i, t) = .done (.ok t) ∧ Left start t.form) ∨
      ∃ t', recoverRightRound g (i, t) = .again (i + 1, t') ∧ Right (i + 1) t'.form := by
  by_cases hlt : i + 1 < t.form.length
  · obtain ⟨t', hat, hnext⟩ := (hscan.right_step h hlt).exists_recoverAt
    exact Or.inr ⟨t', recoverRightRound_of_lt hlt hat, hnext⟩
  · exact Or.inl ⟨recoverRightRound_of_ge (by omega), hscan.turn h (by omega)⟩

theorem right_of_round {i' : Nat} (h : Right i t.form)
    (hround : recoverRightRound g (i, t) = .again (i', t')) : Right i' t'.form := by
  rcases hscan.round_cases h with ⟨hdone, -⟩ | ⟨next, hagain, hnext⟩
  · rw [hdone] at hround
    cases hround
  · rw [hagain] at hround
    cases hround
    exact hnext

/-- **The scan to the right ends**, and what it ends with is where the scan to the left begins. -/
theorem recoverRight_ends (hg : Recovers g) (h : Right i t.form) :
    ∃ fuel t', recoverRight g fuel i t = some (.ok t') ∧ Left start t'.form := by
  obtain ⟨fuel, result, hrun, -⟩ := Derivation.recoverRight_ends hg i t
  obtain ⟨t', rfl, hleft⟩ : ∃ t', result = .ok t' ∧ Left start t'.form := by
    refine iterate_invariant (I := fun state => Right state.1 state.2.form)
      (P := fun result => ∃ t', result = .ok t' ∧ Left start t'.form) ?_ ?_ h hrun
    · rintro ⟨i, s⟩ ⟨i', s'⟩ hs hround
      exact hscan.right_of_round hs (Option.some.inj hround)
    · rintro ⟨i, s⟩ out hs hround
      rcases hscan.round_cases hs with ⟨hdone, hleft⟩ | ⟨next, hagain, -⟩
      · rw [hdone] at hround
        cases hround
        exact ⟨s, rfl, hleft⟩
      · rw [hagain] at hround
        cases hround
  exact ⟨fuel, t', hrun, hleft⟩

/-- **The scan to the left** goes down to the beginning of the row. -/
theorem recoverLeft_ends (h : Left i t.form) :
    ∃ t', recoverLeft g i t = .ok t' ∧ Left 0 t'.form := by
  induction i generalizing t with
  | zero => exact ⟨t, rfl, h⟩
  | succ i ih =>
    obtain ⟨next, hat, hnext⟩ := (hscan.left_step h).exists_recoverAt
    obtain ⟨t', hrun, hleft⟩ := ih hnext
    exact ⟨t', by simp only [recoverLeft, hat, hrun], hleft⟩

/-- The invariants hold wherever the scans get to. -/
theorem right_of_scansRight (h₀ : Right start t₀.form) (h : ScansRight g start t₀ i t) :
    Right i t.form := by
  induction h with
  | first => exact h₀
  | next h hround ih => exact hscan.right_of_round ih hround

theorem left_of_scansLeft (h₀ : Left start t₀.form) (h : ScansLeft g start t₀ i t) :
    Left i t.form := by
  induction h with
  | first => exact h₀
  | next h hat ih =>
    obtain ⟨next, hnext, hleft⟩ := (hscan.left_step ih).exists_recoverAt
    rw [hnext] at hat
    cases hat
    exact hleft

/-- **Every replacement of the scan to the right is in place.** -/
theorem inPlace_right (h₀ : Right start t₀.form) (h : ScansRight g start t₀ i t) :
    InPlace g i t := by
  have hright := hscan.right_of_scansRight h₀ h
  by_cases hlt : i + 1 < t.form.length
  · exact (hscan.right_step hright hlt).inPlace
  · exact inPlace_of_le (by omega)

/-- **Every replacement of the scan to the left is in place.** -/
theorem inPlace_left (h₀ : Left start t₀.form) (h : ScansLeft g start t₀ (i + 1) t) :
    InPlace g i t := (hscan.left_step (hscan.left_of_scansLeft h₀ h)).inPlace

end Scan

end TapeGrammar.Derivation
