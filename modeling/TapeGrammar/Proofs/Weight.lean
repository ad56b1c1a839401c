import TapeGrammar.Proofs.Phases

/-!
# Weighing forms

A WEIGHT of symbols is extended to forms by adding up.  Replacing an occurrence changes the weight of
a form by the difference of the two sides of the production, wherever the occurrence is.  So what a
stretch of a derivation does to a weight can be told from its productions alone: the length of a form
is its weight if every symbol weighs one.
-/

namespace TapeGrammar

/-! ## 1. Weights -/

/-- The weights of all members of a list together. -/
def weigh {α : Type} (weight : α → Nat) : List α → Nat
  | [] => 0
  | x :: l => weight x + weigh weight l

section

variable {α β : Type} {weight : α → Nat} {x : α} {l l' : List α}

@[simp] theorem weigh_nil : weigh weight [] = 0 := rfl

@[simp] theorem weigh_cons : weigh weight (x :: l) = weight x + weigh weight l := rfl

@[simp] theorem weigh_append : weigh weight (l ++ l') = weigh weight l + weigh weight l' := by
  induction l with
  | nil => exact (Nat.zero_add _).symm
  | cons x l ih => rw [List.cons_append, weigh_cons, weigh_cons, ih, Nat.add_assoc]

@[simp] theorem weigh_map {weight : β → Nat} (f : α → β) :
    weigh weight (l.map f) = weigh (fun x => weight (f x)) l := by
  induction l with
  | nil => rfl
  | cons x l ih => rw [List.map_cons, weigh_cons, weigh_cons, ih]

/-- If everything weighs the same, the length decides. -/
@[simp] theorem weigh_const (n : Nat) (l : List α) : weigh (fun _ => n) l = l.length * n := by
  induction l with
  | nil => exact (Nat.zero_mul n).symm
  | cons x l ih => rw [weigh_cons, ih, List.length_cons, Nat.succ_mul, Nat.add_comm]

theorem weigh_replicate (n : Nat) (x : α) :
    weigh weight (List.replicate n x) = n * weight x := by
  induction n with
  | zero => exact (Nat.zero_mul _).symm
  | succ n ih => rw [List.replicate_succ, weigh_cons, ih, Nat.succ_mul, Nat.add_comm]

theorem weigh_congr {weight' : α → Nat} (h : ∀ x ∈ l, weight x = weight' x) :
    weigh weight l = weigh weight' l := by
  induction l with
  | nil => rfl
  | cons x l ih =>
    obtain ⟨hx, hl⟩ := List.forall_mem_cons.mp h
    rw [weigh_cons, weigh_cons, hx, ih hl]

theorem weigh_le {weight' : α → Nat} (h : ∀ x ∈ l, weight x ≤ weight' x) :
    weigh weight l ≤ weigh weight' l := by
  induction l with
  | nil => exact Nat.le_refl _
  | cons x l ih =>
    obtain ⟨hx, hl⟩ := List.forall_mem_cons.mp h
    rw [weigh_cons, weigh_cons]
    exact Nat.add_le_add hx (ih hl)

/-- If everything weighs one more, the length is added. -/
theorem weigh_succ (l : List α) : weigh (fun x => weight x + 1) l = weigh weight l + l.length := by
  induction l with
  | nil => rfl
  | cons x l ih =>
    rw [weigh_cons, weigh_cons, ih, List.length_cons]
    omega

/-- If everything has some weight, a list weighs no less than its length. -/
theorem length_le_weigh (hpos : ∀ x, 1 ≤ weight x) (l : List α) : l.length ≤ weigh weight l := by
  induction l with
  | nil => exact Nat.le_refl 0
  | cons x l ih =>
    have := hpos x
    rw [List.length_cons, weigh_cons]
    omega

end

/-! ## 2. Derivations -/

variable {weight : Symbol → Nat} {t t' : TracedForm} {left right form form' : Form}
  {productions : List Production} {allowed : Production → Prop}

/-- Productions that do not add weight do not make a form heavier. -/
theorem Derives.weigh_le (h : Derives allowed form form')
    (hle : ∀ p, allowed p → weigh weight p.right ≤ weigh weight p.left) :
    weigh weight form' ≤ weigh weight form := by
  induction h with
  | refl => exact Nat.le_refl _
  | tail _ hstep ih =>
    obtain ⟨before, behind, p, hp⟩ := hstep
    have := hle p hp
    simp only [weigh_append] at ih ⊢
    omega

/-- Productions whose sides have the same length keep the length of a form. -/
theorem Derives.length_eq (h : Derives allowed form form')
    (hsame : ∀ p, allowed p → p.right.length = p.left.length) : form'.length = form.length := by
  induction h with
  | refl => rfl
  | tail _ hstep ih =>
    obtain ⟨before, behind, p, hp⟩ := hstep
    have := hsame p hp
    simp only [List.length_append] at ih ⊢
    omega

/-! ## 3. Replays -/

/-- **A production exchanges the weight of its left side for that of its right side.** -/
theorem TracedForm.weigh_of_apply (weight : Symbol → Nat) (h : t.apply left right = .applied t') :
    weigh weight t'.form + weigh weight left = weigh weight t.form + weigh weight right := by
  obtain ⟨before, behind, hform, hform'⟩ := TracedForm.occurs_of_apply h
  rw [hform, hform']
  simp only [weigh_append]
  omega

/-- The weight of all left sides is exchanged for that of all right sides. -/
theorem Replays.weigh_eq (weight : Symbol → Nat) (h : Replays allowed t productions t') :
    weigh weight t'.form + weigh (fun p => weigh weight p.left) productions =
      weigh weight t.form + weigh (fun p => weigh weight p.right) productions := by
  obtain ⟨-, hreplay⟩ := h
  induction productions generalizing t with
  | nil =>
    cases hreplay
    rfl
  | cons p productions ih =>
    unfold TracedForm.replay at hreplay
    split at hreplay
    · rename_i next happly
      have hfirst := TracedForm.weigh_of_apply weight happly
      have hrest := ih hreplay
      simp only [weigh_cons]
      omega
    · cases hreplay

end TapeGrammar
