import TapeGrammar.Proofs.Rewriting

/-!
# The leftmost occurrence

A pattern can occur in a form at several places, and occurrences may overlap.  The search answers with
the one that has the shortest row of symbols before it (`Form.find?_eq_some_iff`), and with none only if
there is none (`Form.find?_eq_none_iff`).  So what `TracedForm.apply` does to a form and to its trace is
determined by the occurrences of the left side alone (`apply_replaces_leftmost`): how the search goes
along the form, and that it compares a symbol at a time, can no longer be seen.
-/

namespace TapeGrammar

/-! ## 1. Searching -/

namespace Form

variable {form left right before behind before' behind' : Form} {i : Nat}

/-- The leftmost occurrence of a pattern splits a form in one way. -/
theorem Leftmost.unique (hmin : Leftmost before left behind) (hmin' : Leftmost before' left behind')
    (h : before ++ left ++ behind = before' ++ left ++ behind') : before = before' ∧ behind = behind' := by
  have hlength : before.length = before'.length :=
    Nat.le_antisymm (hmin before' behind' h) (hmin' before behind h.symm)
  obtain ⟨hfront, hbehind⟩ := List.append_inj h (by simp [hlength])
  exact ⟨(List.append_inj hfront hlength).1, hbehind⟩

/-- What the search finds is the leftmost occurrence. -/
theorem leftmost_of_find? (h : find? form left = some i) : left ≠ [] ∧ ∃ before behind,
    form = before ++ left ++ behind ∧ before.length = i ∧ Leftmost before left behind := by
  unfold find? at h
  split at h
  · cases h
  · rename_i hempty
    have hne : left ≠ [] := by simpa using hempty
    obtain ⟨before, behind, rfl, hi⟩ := occurs_of_findFrom h
    refine ⟨hne, before, behind, rfl, by omega, fun before' behind' heq => ?_⟩
    -- the search would have stopped at the other occurrence, if that one began earlier
    obtain ⟨j, hj, hle⟩ := findFrom_of_occurs hne 0 before' behind'
    rw [← heq, h] at hj
    cases hj
    omega

/-- **The search finds the leftmost occurrence of a pattern**, and nothing else. -/
theorem find?_eq_some_iff : find? form left = some i ↔ left ≠ [] ∧ ∃ before behind,
    form = before ++ left ++ behind ∧ before.length = i ∧ Leftmost before left behind := by
  refine ⟨leftmost_of_find?, ?_⟩
  rintro ⟨hne, before, behind, rfl, rfl, hmin⟩
  exact find?_of_leftmost hne hmin

/-- **The search fails only where the pattern does not occur.** -/
theorem find?_eq_none_iff (hne : left ≠ []) :
    find? form left = none ↔ ∀ before behind, form ≠ before ++ left ++ behind := by
  constructor
  · rintro h before behind rfl
    obtain ⟨i, hi, -⟩ := findFrom_of_occurs hne 0 before behind
    rw [find?, if_neg (by simpa using hne), hi] at h
    cases h
  · intro h
    cases hfind : find? form left with
    | none => rfl
    | some i =>
      obtain ⟨-, before, behind, hform, -⟩ := leftmost_of_find? hfind
      exact absurd hform (h before behind)

/-- A pattern that occurs has a leftmost occurrence. -/
theorem exists_leftmost (hne : left ≠ []) (h : form = before ++ left ++ behind) :
    ∃ first rest, form = first ++ left ++ rest ∧ Leftmost first left rest := by
  cases hfind : find? form left with
  | none => exact absurd h ((find?_eq_none_iff hne).mp hfind before behind)
  | some i =>
    obtain ⟨-, first, rest, hform, -, hmin⟩ := leftmost_of_find? hfind
    exact ⟨first, rest, hform, hmin⟩

/-- A pattern that occurs is no longer than the form. -/
theorem length_le_of_occurs (h : form = before ++ left ++ behind) : left.length ≤ form.length := by
  have hlength := congrArg List.length h
  simp only [List.length_append] at hlength
  omega

end Form

/-! ## 2. Replacing -/

/-- What an attempt to apply a production says: whether it has been applied, unless there is no such
production. -/
def Application.answer : Application → Option Bool
  | .absent => some false
  | .applied _ => some true
  | .refused _ _ => none

/-- What it leaves behind of a form with a trace. -/
def Application.leaves (t : TracedForm) : Application → TracedForm
  | .absent => t
  | .applied result => result
  | .refused _ result => result

theorem Application.exists_of_answer {application : Application}
    (h : application.answer = some true) : ∃ result, application = .applied result := by
  cases application with
  | applied result => exact ⟨result, rfl⟩
  | absent => cases h
  | refused fault result => cases h

namespace TracedForm

variable {t : TracedForm} {left right before behind : Form}

theorem left_ne_nil (hwidth : Production.HasWidth ⟨left, right⟩) : left ≠ [] := by
  rintro rfl
  exact absurd hwidth.1 (by simp)

/-- **Applying a production replaces the leftmost occurrence of its left side**, whatever else occurs in
the form. -/
theorem apply_of_occurs (hwidth : Production.HasWidth ⟨left, right⟩)
    (h : t.form = before ++ left ++ behind) : ∃ first rest, t.form = first ++ left ++ rest ∧
      Form.Leftmost first left rest ∧
      t.apply left right = .applied ⟨first ++ right ++ rest, t.trace.push ⟨left, right⟩⟩ := by
  obtain ⟨first, rest, hform, hmin⟩ := Form.exists_leftmost (left_ne_nil hwidth) h
  exact ⟨first, rest, hform, hmin, apply_of_leftmost hform hwidth hmin⟩

/-- **The rewrite primitive.**  A production with a left side of one to three symbols is applied exactly if
the left side occurs.  Then the occurrence with the shortest row before it has been replaced by the right
side, and the production has been added to the trace.  Otherwise form and trace are what they were; so it
is with a left side that is longer than the form. -/
theorem apply_replaces_leftmost (hwidth : Production.HasWidth ⟨left, right⟩) (t : TracedForm) :
    ((t.apply left right).answer = some true ↔ ∃ before behind, t.form = before ++ left ++ behind) ∧
    ((t.apply left right).answer = some true → ∃ before behind, t.form = before ++ left ++ behind ∧
      (∀ before' behind', t.form = before' ++ left ++ behind' → before.length ≤ before'.length) ∧
      ((t.apply left right).leaves t).form = before ++ right ++ behind ∧
      ((t.apply left right).leaves t).trace.steps = t.trace.steps ++ [⟨left, right⟩]) ∧
    ((∀ before behind, t.form ≠ before ++ left ++ behind) →
      (t.apply left right).answer = some false ∧ (t.apply left right).leaves t = t) ∧
    (t.form.length < left.length → ∀ before behind, t.form ≠ before ++ left ++ behind) := by
  have happlied : (t.apply left right).answer = some true →
      ∃ before behind, t.form = before ++ left ++ behind := by
    intro h
    obtain ⟨result, happly⟩ := Application.exists_of_answer h
    obtain ⟨before, behind, hform, -⟩ := occurs_of_apply happly
    exact ⟨before, behind, hform⟩
  refine ⟨⟨happlied, ?_⟩, fun h => ?_, fun h => ?_, fun hlt before behind heq => ?_⟩
  · rintro ⟨before, behind, hform⟩
    obtain ⟨first, rest, -, -, happly⟩ := apply_of_occurs hwidth hform
    rw [happly]
    rfl
  · obtain ⟨before, behind, hform⟩ := happlied h
    obtain ⟨first, rest, hfirst, hmin, happly⟩ := apply_of_occurs hwidth hform
    refine ⟨first, rest, hfirst, fun before' behind' heq => ?_, ?_, ?_⟩
    · exact hmin before' behind' (hfirst.symm.trans heq)
    · rw [happly]
      rfl
    · rw [happly]
      exact Trace.steps_push _ _
  · rw [apply_of_not_occurs h right]
    exact ⟨rfl, rfl⟩
  · have := Form.length_le_of_occurs heq
    omega

end TracedForm

/-- Of two occurrences of `aa` in `aaa` the first one is replaced. -/
theorem apply_overlapping : Production.HasWidth ⟨[.nonTerminal ["a"], .nonTerminal ["a"]],
      [.nonTerminal ["b"]]⟩ ∧
    ∃ t, ((TracedForm.ofForm (List.replicate 3 (.nonTerminal ["a"]))).apply
        [.nonTerminal ["a"], .nonTerminal ["a"]] [.nonTerminal ["b"]]).leaves
          (.ofForm (List.replicate 3 (.nonTerminal ["a"]))) = t ∧
      t.form = [.nonTerminal ["b"], .nonTerminal ["a"]] ∧
      t.trace.steps = [⟨[.nonTerminal ["a"], .nonTerminal ["a"]], [.nonTerminal ["b"]]⟩] := by
  have hwidth : Production.HasWidth ⟨[.nonTerminal ["a"], .nonTerminal ["a"]],
      [.nonTerminal ["b"]]⟩ := by decide
  obtain ⟨hoccurs, hreplaces, -⟩ := TracedForm.apply_replaces_leftmost hwidth
    (.ofForm (List.replicate 3 (.nonTerminal ["a"])))
  obtain ⟨before, behind, hform, hmin, hresult, htrace⟩ :=
    hreplaces (hoccurs.mpr ⟨[], [.nonTerminal ["a"]], rfl⟩)
  -- nothing is before the first occurrence
  obtain rfl : before = [] :=
    List.eq_nil_of_length_eq_zero (Nat.le_zero.mp (hmin [] [.nonTerminal ["a"]] rfl))
  obtain rfl : [.nonTerminal ["a"]] = behind := by
    simpa [TracedForm.ofForm, List.replicate] using hform
  exact ⟨hwidth, _, rfl, hresult, htrace⟩

end TapeGrammar
