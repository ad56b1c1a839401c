/-!
# Iteration

Running a machine and deriving a word are loops that need not end.  Here such a loop is a ROUND --
what one turn does to the state -- iterated at most `fuel` times.  The answer `none` means only that
the fuel was used up; with any other answer more fuel changes nothing (`iterate_of_le`), so the
question whether a loop ends is the question whether some fuel gives an answer, and no two amounts
of fuel give different ones.

A round may itself contain a loop, and so may run out of fuel too.
-/

namespace TapeGrammar

/-- What one turn of a loop leads to: another turn, or the result. -/
inductive Round (σ α : Type) where
  | again (state : σ)
  | done (result : α)

/-- Turns until a result is reached, at most `fuel` times.  `none` means that the fuel was used
up. -/
def iterate {σ α : Type} (round : σ → Option (Round σ α)) : (fuel : Nat) → σ → Option α
  | 0, _ => none
  | fuel + 1, state =>
    match round state with
    | none => none
    | some (.again next) => iterate round fuel next
    | some (.done result) => some result

section

variable {σ α : Type} {round : σ → Option (Round σ α)}

@[simp] theorem iterate_zero (state : σ) : iterate round 0 state = none := rfl

theorem iterate_succ_of_again {fuel : Nat} {state next : σ}
    (h : round state = some (.again next)) :
    iterate round (fuel + 1) state = iterate round fuel next := by
  simp only [iterate, h]

theorem iterate_succ_of_done {fuel : Nat} {state : σ} {result : α}
    (h : round state = some (.done result)) :
    iterate round (fuel + 1) state = some result := by
  simp only [iterate, h]

/-- **More fuel keeps an answer.** -/
theorem iterate_of_le {fuel more : Nat} {state : σ} {result : α} (hle : fuel ≤ more)
    (h : iterate round fuel state = some result) : iterate round more state = some result := by
  induction fuel generalizing more state with
  | zero => simp at h
  | succ fuel ih =>
    obtain ⟨more, rfl⟩ : ∃ m, more = m + 1 := ⟨more - 1, by omega⟩
    unfold iterate at h ⊢
    split at h
    · simp at h
    · exact ih (by omega) h
    · exact h

/-- **What every round keeps holds at the end.** -/
theorem iterate_invariant {I : σ → Prop} {P : α → Prop}
    (hagain : ∀ state next, I state → round state = some (.again next) → I next)
    (hdone : ∀ state result, I state → round state = some (.done result) → P result)
    {fuel : Nat} {state : σ} {result : α} (hinv : I state)
    (h : iterate round fuel state = some result) : P result := by
  induction fuel generalizing state with
  | zero => simp at h
  | succ fuel ih =>
    unfold iterate at h
    split at h
    · simp at h
    · rename_i next hnext
      exact ih (hagain state next hinv hnext) h
    · rename_i result' hresult
      obtain rfl : result' = result := by simpa using h
      exact hdone state result' hinv hresult

/-- **A loop whose rounds decrease a measure ends**, takes at most one round more than the measure
allows, and ends with what its last round says. -/
theorem iterate_ends {I : σ → Prop} {P : α → Prop} {m : σ → Nat}
    (hround : ∀ state, I state → (∃ result, round state = some (.done result) ∧ P result) ∨
      ∃ next, round state = some (.again next) ∧ I next ∧ m next < m state)
    {fuel : Nat} {state : σ} (hinv : I state) (hfuel : m state < fuel) :
    ∃ result, iterate round fuel state = some result ∧ P result := by
  induction fuel generalizing state with
  | zero => omega
  | succ fuel ih =>
    rcases hround state hinv with ⟨result, hdone, hresult⟩ | ⟨next, hagain, hnext, hlt⟩
    · exact ⟨result, iterate_succ_of_done hdone, hresult⟩
    · obtain ⟨result, hend, hresult⟩ := ih hnext (by omega)
      exact ⟨result, by rw [iterate_succ_of_again hagain, hend], hresult⟩

/-- A loop whose rounds decrease a measure ends. -/
theorem iterate_terminates {I : σ → Prop} {m : σ → Nat}
    (hround : ∀ state, I state → (∃ result, round state = some (.done result)) ∨
      ∃ next, round state = some (.again next) ∧ I next ∧ m next < m state)
    {fuel : Nat} {state : σ} (hinv : I state) (hfuel : m state < fuel) :
    ∃ result, iterate round fuel state = some result := by
  obtain ⟨result, hend, -⟩ := iterate_ends (P := fun _ => True)
    (fun state hstate => (hround state hstate).imp_left fun ⟨result, hdone⟩ =>
      ⟨result, hdone, trivial⟩) hinv hfuel
  exact ⟨result, hend⟩

/-- A round that gives an answer more often keeps the answers of the loop. -/
theorem iterate_mono {round' : σ → Option (Round σ α)}
    (hround : ∀ state outcome, round state = some outcome → round' state = some outcome)
    {fuel : Nat} {state : σ} {result : α} (h : iterate round fuel state = some result) :
    iterate round' fuel state = some result := by
  induction fuel generalizing state with
  | zero => simp at h
  | succ fuel ih =>
    unfold iterate at h
    split at h
    · simp at h
    · rename_i next hnext
      rw [iterate_succ_of_again (hround state _ hnext)]
      exact ih h
    · rename_i result' hresult
      rw [iterate_succ_of_done (hround state _ hresult)]
      exact h

/-- Rounds that do the same in every state that comes up make the same loop. -/
theorem iterate_congr {round' : σ → Option (Round σ α)} {I : σ → Prop}
    (hsame : ∀ state, I state → round' state = round state)
    (hagain : ∀ state next, I state → round state = some (.again next) → I next)
    (fuel : Nat) {state : σ} (hinv : I state) : iterate round' fuel state = iterate round fuel state := by
  induction fuel generalizing state with
  | zero => rfl
  | succ fuel ih =>
    unfold iterate
    rw [hsame state hinv]
    split
    · rfl
    · rename_i next hnext
      exact ih (hagain state next hinv hnext)
    · rfl

end

end TapeGrammar
