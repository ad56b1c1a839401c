import Mathlib.Logic.Relation
import TapeGrammar.Grammar
import TapeGrammar.TracedForm

/-!
# Derivability

A production applies to a form wherever its left side OCCURS, that is, for every way of writing the
form as `before ++ left ++ behind`.  A grammar DERIVES one form from another if productions of its
three tables lead there, applied in any order and at any place; it GENERATES a word if it derives
the letters of the word from its start symbol.

A derivation of this library is far more restricted: it looks a production up, and replaces the
leftmost occurrence.  Sections 2 and 3 say what the two operations that it is made of have to do
with occurrences: `Form.stretch?` reads one off, and `TracedForm.apply` replaces the leftmost one.
-/

namespace TapeGrammar

/-! ## 1. Derivability -/

/-- One occurrence of the left side of one of the given productions is replaced by the right
side. -/
inductive Rewrites (allowed : Production → Prop) : Form → Form → Prop where
  | replace (before behind : Form) (p : Production) (h : allowed p) :
    Rewrites allowed (before ++ p.left ++ behind) (before ++ p.right ++ behind)

/-- Any number of replacements. -/
def Derives (allowed : Production → Prop) : Form → Form → Prop :=
  Relation.ReflTransGen (Rewrites allowed)

namespace Grammar

/-- Whether a production is in one of the three tables. -/
def Has (g : Grammar) (p : Production) : Prop :=
  p ∈ g.generation ∨ p ∈ g.transition ∨ p ∈ g.recovery

/-- **A grammar generates a word** if the letters of the word can be derived from the start symbol
with the productions of all tables, in any order and at any place. -/
def Generates (g : Grammar) (word : Word) : Prop :=
  Derives g.Has [g.start] (word.map .terminal)

end Grammar

/-! ## 2. Occurrences -/

/-- **The only element of a class splits a list in one way.**  If one symbol of a pattern belongs to
a class and the form has a single symbol of the class, every occurrence of the pattern lies around
that symbol. -/
theorem split_unique {α : Type} {p : α → Prop} {before behind left right : List α} {s s' : α}
    (hs : p s) (hleft : ∀ x ∈ left, ¬ p x) (hright : ∀ x ∈ right, ¬ p x)
    (h : before ++ s :: behind = left ++ s' :: right) :
    before = left ∧ s = s' ∧ behind = right := by
  rcases List.append_eq_append_iff.mp h with ⟨mid, rfl, hmid⟩ | ⟨mid, rfl, hmid⟩
  · cases mid with
    | nil =>
      obtain ⟨rfl, rfl⟩ := List.cons.inj (by simpa using hmid)
      exact ⟨by simp, rfl, rfl⟩
    | cons x mid =>
      obtain ⟨rfl, -⟩ := List.cons.inj (by simpa using hmid)
      exact absurd hs (hleft s (by simp))
  · cases mid with
    | nil =>
      obtain ⟨rfl, rfl⟩ := List.cons.inj (by simpa using hmid.symm)
      exact ⟨by simp, rfl, rfl⟩
    | cons x mid =>
      obtain ⟨rfl, rfl⟩ := List.cons.inj (by simpa using hmid)
      exact absurd hs (hright s (by simp))

/-- **The only element of a class is found at one position only.** -/
theorem iff_of_split {α : Type} {p : α → Prop} {left right : List α} {s x : α} {i : Nat}
    (hs : p s) (hleft : ∀ x ∈ left, ¬ p x) (hright : ∀ x ∈ right, ¬ p x)
    (h : (left ++ s :: right)[i]? = some x) : p x ↔ i = left.length := by
  rcases Nat.lt_trichotomy i left.length with hlt | rfl | hgt
  · rw [List.getElem?_append_left hlt] at h
    exact iff_of_false (hleft x (List.mem_of_getElem? h)) (by omega)
  · rw [List.getElem?_append_right (Nat.le_refl _), Nat.sub_self] at h
    cases h
    exact iff_of_true hs rfl
  · obtain ⟨n, rfl⟩ := Nat.exists_eq_add_of_lt hgt
    have hn : left.length + n + 1 - left.length = n + 1 := by omega
    rw [List.getElem?_append_right (by omega), hn, List.getElem?_cons_succ] at h
    exact iff_of_false (hright x (List.mem_of_getElem? h)) (by omega)

namespace Form

variable {form pattern left right before behind : Form}

/-- A stretch of a form is an occurrence of what it holds. -/
theorem stretch?_eq_some_iff {start width : Nat} :
    form.stretch? start width = some left ↔
      ∃ before behind, form = before ++ left ++ behind ∧ before.length = start ∧
        left.length = width := by
  unfold stretch?
  constructor
  · intro h
    split at h
    · rename_i hle
      obtain rfl : (form.drop start).take width = left := by simpa using h
      refine ⟨form.take start, (form.drop start).drop width, ?_, ?_, ?_⟩
      · rw [List.append_assoc, List.take_append_drop, List.take_append_drop]
      · rw [List.length_take]
        omega
      · rw [List.length_take, List.length_drop]
        omega
    · cases h
  · rintro ⟨before, behind, rfl, rfl, rfl⟩
    rw [if_pos (by simp), List.append_assoc, List.drop_left, List.take_left]

/-- What the search finds is an occurrence. -/
theorem occurs_of_findFrom {start i : Nat} (h : findFrom pattern start form = some i) :
    ∃ before behind, form = before ++ pattern ++ behind ∧ i = start + before.length := by
  induction form generalizing start with
  | nil => simp [findFrom] at h
  | cons symbol rest ih =>
    unfold findFrom at h
    split at h
    · rename_i hp
      obtain ⟨behind, hbehind⟩ := startsWith_iff.mp hp
      have hi : start = i := by simpa using h
      exact ⟨[], behind, by simp [hbehind], by simp [hi]⟩
    · obtain ⟨before, behind, rfl, hi⟩ := ih h
      exact ⟨symbol :: before, behind, by simp, by simp only [List.length_cons]; omega⟩

/-- The search finds something no later than any occurrence. -/
theorem findFrom_of_occurs (hne : pattern ≠ []) (start : Nat) (before behind : Form) :
    ∃ i, findFrom pattern start (before ++ pattern ++ behind) = some i ∧
      i ≤ start + before.length := by
  induction before generalizing start with
  | nil =>
    obtain ⟨first, rest, rfl⟩ := List.exists_cons_of_ne_nil hne
    refine ⟨start, ?_, Nat.le_refl _⟩
    have hp : startsWith (first :: (rest ++ behind)) (first :: rest) = true :=
      startsWith_iff.mpr ⟨behind, rfl⟩
    simp only [List.nil_append, List.cons_append, findFrom, hp, if_true]
  | cons symbol before ih =>
    simp only [List.cons_append, findFrom]
    split
    · exact ⟨start, rfl, by omega⟩
    · obtain ⟨i, hi, hle⟩ := ih (start + 1)
      exact ⟨i, hi, by simp only [List.length_cons]; omega⟩

/-- Splicing at an occurrence replaces it. -/
theorem splice_append (before left behind new : Form) :
    (before ++ left ++ behind).splice before.length left.length new = before ++ new ++ behind := by
  have htake : (before ++ left ++ behind).take before.length = before := by
    rw [List.append_assoc, List.take_left]
  have hdrop : (before ++ left ++ behind).drop (before.length + left.length) = behind := by
    rw [← List.length_append, List.drop_left]
  rw [splice, htake, hdrop, List.append_assoc]

/-- The occurrence `before ++ left ++ behind` is the leftmost one. -/
def Leftmost (before left behind : Form) : Prop :=
  ∀ before' behind', before ++ left ++ behind = before' ++ left ++ behind' →
    before.length ≤ before'.length

/-- **The leftmost occurrence is the one that is found.** -/
theorem find?_of_leftmost (hne : left ≠ []) (hmin : Leftmost before left behind) :
    find? (before ++ left ++ behind) left = some before.length := by
  obtain ⟨i, hi, hle⟩ := findFrom_of_occurs hne 0 before behind
  obtain ⟨before', behind', heq, hi'⟩ := occurs_of_findFrom hi
  have hlen : i = before.length := by
    have := hmin before' behind' heq
    omega
  rw [find?, if_neg (by simpa using hne), hi, hlen]

/-- **The leftmost occurrence is the one that is replaced.** -/
theorem replaceFirst?_of_leftmost (hne : left ≠ []) (hmin : Leftmost before left behind) :
    replaceFirst? (before ++ left ++ behind) left right = some (before ++ right ++ behind) := by
  rw [replaceFirst?, find?_of_leftmost hne hmin, Option.map_some, splice_append]

/-- A single symbol occurs first where it does not occur before. -/
theorem leftmost_singleton {s : Symbol} (h : s ∉ before) : Leftmost before [s] behind := by
  intro before' behind' heq
  refine Nat.le_of_not_lt fun hlt => ?_
  have hs : (before' ++ [s] ++ behind')[before'.length]? = some s := by simp
  rw [← heq, List.append_assoc, List.getElem?_append_left (by omega)] at hs
  exact h (List.mem_of_getElem? hs)

/-- Two symbols occur first behind a row without the one and another without the other. -/
theorem leftmost_pair {l m : Form} {s s' : Symbol} (hl : s ∉ l) (hm : s' ∉ m ++ [s]) :
    Leftmost (l ++ m) [s, s'] behind := by
  intro before' behind' heq
  refine Nat.le_of_not_lt fun hlt => ?_
  rw [List.length_append] at hlt
  have hfirst : (before' ++ [s, s'] ++ behind')[before'.length]? = some s := by simp
  have hsecond : (before' ++ [s, s'] ++ behind')[before'.length + 1]? = some s' := by
    rw [List.append_assoc, List.getElem?_append_right (by omega)]
    simp
  have hform : before' ++ [s, s'] ++ behind' = l ++ (m ++ [s] ++ s' :: behind) := by
    rw [← heq]
    simp
  rw [hform] at hfirst hsecond
  rcases Nat.lt_or_ge before'.length l.length with hin | hin
  · rw [List.getElem?_append_left hin] at hfirst
    exact hl (List.mem_of_getElem? hfirst)
  · rw [List.getElem?_append_right (by omega), List.getElem?_append_left (by simp; omega)] at hsecond
    exact hm (List.mem_of_getElem? hsecond)

/-- What is replaced is an occurrence. -/
theorem occurs_of_replaceFirst? {new : Form} (h : replaceFirst? form left right = some new) :
    ∃ before behind, form = before ++ left ++ behind ∧ new = before ++ right ++ behind := by
  obtain ⟨i, hi, rfl⟩ := Option.map_eq_some_iff.mp h
  unfold find? at hi
  split at hi
  · cases hi
  · obtain ⟨before, behind, rfl, rfl⟩ := occurs_of_findFrom hi
    exact ⟨before, behind, rfl, by rw [Nat.zero_add, splice_append]⟩

/-- **A pattern without symbols of a class occurs before an end that is made of them.** -/
theorem body_of_occurs {p : Symbol → Prop} {body tail before left behind : Form} (hne : left ≠ [])
    (hleft : ∀ s ∈ left, ¬ p s) (htail : ∀ s ∈ tail, p s)
    (h : body ++ tail = before ++ left ++ behind) :
    ∃ behind', behind = behind' ++ tail ∧ body = before ++ left ++ behind' := by
  rcases List.append_eq_append_iff.mp h with ⟨mid, hmid, hbehind⟩ | ⟨mid, rfl, rfl⟩
  · -- the pattern reaches into the end, unless there is nothing of it there
    rcases List.eq_nil_or_concat mid with rfl | ⟨mid, s, rfl⟩
    · exact ⟨[], by simpa using hbehind.symm, by simpa using hmid.symm⟩
    · obtain ⟨left, s', rfl⟩ := (List.eq_nil_or_concat left).resolve_left hne
      rw [List.concat_eq_append, List.concat_eq_append, ← List.append_assoc,
        ← List.append_assoc] at hmid
      obtain ⟨-, hs⟩ := List.append_inj' hmid rfl
      obtain rfl : s' = s := by simpa using hs
      exact absurd (htail s' (by simp [hbehind])) (hleft s' (by simp))
  · exact ⟨mid, rfl, rfl⟩

/-- A symbol of a class that is absent from the body occurs at an end of a single symbol only. -/
theorem tail_of_occurs {p : Symbol → Prop} {s : Symbol} {body tail before behind : Form} (hs : p s)
    (hbody : ∀ s ∈ body, ¬ p s) (htail : tail.length ≤ 1)
    (h : body ++ tail = before ++ [s] ++ behind) : tail = [s] ∧ before = body ∧ behind = [] := by
  match tail, htail with
  | [], _ =>
    refine absurd hs (hbody s ?_)
    rw [List.append_nil] at h
    rw [h]
    simp
  | [s'], _ =>
    have hsplit : before ++ s :: behind = body ++ s' :: [] := by
      rw [h]
      simp
    obtain ⟨rfl, rfl, rfl⟩ := split_unique hs hbody (by simp) hsplit
    exact ⟨rfl, rfl, rfl⟩

end Form

/-! ## 3. Application -/

namespace TracedForm

variable {t : TracedForm} {left right before behind : Form}

/-- **Applying a production replaces the leftmost occurrence** and writes the production down. -/
theorem apply_of_leftmost (hform : t.form = before ++ left ++ behind)
    (hwidth : Production.HasWidth ⟨left, right⟩) (hmin : Form.Leftmost before left behind) :
    t.apply left right = .applied ⟨before ++ right ++ behind, t.trace.push ⟨left, right⟩⟩ := by
  have hne : left ≠ [] := by
    rintro rfl
    exact absurd hwidth.1 (by simp)
  have hreplace : t.form.replaceFirst? left right = some (before ++ right ++ behind) := by
    rw [hform]
    exact Form.replaceFirst?_of_leftmost hne hmin
  simp only [apply, hreplace, Production.make, if_pos hwidth]

/-- One symbol is replaced where it occurs first. -/
theorem apply_of_not_mem {s : Symbol} (hform : t.form = before ++ [s] ++ behind)
    (h : s ∉ before) (right : Form) :
    t.apply [s] right = .applied ⟨before ++ right ++ behind, t.trace.push ⟨[s], right⟩⟩ := by
  refine apply_of_leftmost hform ⟨Nat.le_refl 1, ?_⟩ (Form.leftmost_singleton h)
  show 1 ≤ 3
  omega

/-- What does not occur is not replaced. -/
theorem apply_of_not_occurs (h : ∀ before behind, t.form ≠ before ++ left ++ behind)
    (right : Form) : t.apply left right = .absent := by
  have hnone : t.form.replaceFirst? left right = none := by
    cases hreplace : t.form.replaceFirst? left right with
    | none => rfl
    | some form =>
      obtain ⟨before, behind, hform, -⟩ := Form.occurs_of_replaceFirst? hreplace
      exact absurd hform (h before behind)
  simp only [apply, hnone]

/-- Where a production has been applied its left side occurred. -/
theorem occurs_of_apply {result : TracedForm} (h : t.apply left right = .applied result) :
    ∃ before behind, t.form = before ++ left ++ behind ∧
      result.form = before ++ right ++ behind := by
  unfold apply at h
  split at h
  · cases h
  · rename_i form hform
    split at h
    · obtain rfl : (⟨form, _⟩ : TracedForm) = result := by simpa using h
      exact Form.occurs_of_replaceFirst? hform
    · cases h

/-- A production that can be applied derives what results. -/
theorem rewrites_of_apply {allowed : Production → Prop} {result : TracedForm}
    (hallowed : allowed ⟨left, right⟩) (h : t.apply left right = .applied result) :
    Rewrites allowed t.form result.form := by
  obtain ⟨before, behind, hform, hresult⟩ := occurs_of_apply h
  rw [hform, hresult]
  exact .replace before behind ⟨left, right⟩ hallowed

end TracedForm

end TapeGrammar
