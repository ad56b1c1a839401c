import TapeGrammar.Proofs.Phases
import TapeGrammar.Proofs.Window

/-!
# Derivations without faults

An operation faults if it is used outside its contract.  A derivation never does that, whatever its
grammar: what it looks up has at most three symbols, because it was read off the form at a site, and
what a plan replaces is a single symbol.  So the only fault that can end a check is a size that no
longer fits (`TapeGrammar.Proofs.LimitedCheck`).
-/

namespace TapeGrammar

/-- An outcome that is no fault. -/
def Faultless {α : Type} (outcome : Except CheckError α) : Prop :=
  ∀ fault, outcome ≠ .error (.fault fault)

section

variable {α : Type}

theorem faultless_ok (result : α) : Faultless (.ok result) := by
  intro fault h
  cases h

theorem faultless_violation (cause : Violation) :
    Faultless (.error (.violation cause) : Except CheckError α) := by
  intro fault h
  cases h

theorem faultless_stepLimit (limit : Nat) :
    Faultless (.error (.stepLimit limit) : Except CheckError α) := by
  intro fault h
  cases h

/-- An error that is passed on is no fault if it was none. -/
theorem Faultless.error {β : Type} {error : CheckError}
    (h : Faultless (.error error : Except CheckError α)) :
    Faultless (.error error : Except CheckError β) :=
  fun fault heq => h fault (congrArg Except.error (Except.error.inj heq))

/-- That a word is refused is no fault. -/
theorem Grammar.wordError?_faultless {g : Grammar} {word : Word} {error : CheckError}
    (h : g.wordError? word = some error) : Faultless (.error error : Except CheckError α) := by
  intro fault heq
  rcases wordError?_eq_some h with rfl | ⟨letters, -, rfl⟩ <;> cases heq

end

variable {g : Grammar} {t : TracedForm} {d : Derivation} {left right form : Form} {fault : Fault}

/-! ## 1. Replacing -/

/-- **What is found can be replaced.** -/
theorem Form.replace_of_find? {start : Nat} (h : form.find? left = some start) :
    form.replace start left.length right = .ok (form.splice start left.length right) := by
  unfold find? at h
  split at h
  · cases h
  · obtain ⟨before, behind, rfl, rfl⟩ := occurs_of_findFrom h
    exact if_pos (by simp only [List.length_append]; omega)

/-- A left side of at most three symbols is not refused. -/
theorem TracedForm.apply_ne_refused {t' : TracedForm} (hwidth : left.length ≤ Production.widthLimit) :
    t.apply left right ≠ .refused fault t' := by
  intro h
  unfold apply at h
  split at h
  · cases h
  · rename_i form hform
    have hne : 1 ≤ left.length := by
      obtain ⟨start, hfind, -⟩ := Option.map_eq_some_iff.mp hform
      unfold Form.find? at hfind
      split at hfind
      · cases hfind
      · rename_i hleft
        exact List.length_pos_iff.mpr (by simpa using hleft)
    rw [Production.make, if_pos ⟨hne, hwidth⟩] at h
    cases h

namespace Derivation

/-! ## 2. Generation -/

theorem applyTimes_faultless {p : Production} (hwidth : p.left.length ≤ Production.widthLimit)
    (times : Nat) (t : TracedForm) : Faultless (applyTimes p times t) := by
  induction times generalizing t with
  | zero => exact faultless_ok t
  | succ times ih =>
    unfold applyTimes
    split
    · exact faultless_violation _
    · exact ih _
    · rename_i happly
      exact absurd happly (TracedForm.apply_ne_refused hwidth)

theorem followPlan_faultless {plan : Plan}
    (hwidth : ∀ step ∈ plan, step.production.left.length ≤ Production.widthLimit)
    (t : TracedForm) : Faultless (followPlan g plan t) := by
  induction plan generalizing t with
  | nil => exact faultless_ok t
  | cons step plan ih =>
    have hfirst := applyTimes_faultless (hwidth step List.mem_cons_self) step.times t
    unfold followPlan
    split
    · split
      · rename_i error herror
        rw [herror] at hfirst
        exact hfirst.error
      · exact ih (fun step hstep => hwidth step (List.mem_cons_of_mem _ hstep)) _
    · exact faultless_violation _

/-! ## 3. Simulation -/

/-- A site has at most three symbols. -/
theorem width_of_mem_sites {site : Site} (h : site ∈ sites g d) :
    site.width ≤ Production.widthLimit := by
  have hleft : g.kind.leftStepWidth ≤ 3 := by
    cases g.kind <;> decide
  rcases mem_sites_iff.mp h with rfl | rfl | ⟨-, rfl⟩
  · exact (by decide : 1 ≤ 3)
  · exact (by decide : 2 ≤ 3)
  · exact hleft

theorem stepAt_ne_error {site : Site} (hwidth : site.width ≤ Production.widthLimit) :
    stepAt g d site ≠ .error fault := by
  intro h
  unfold stepAt at h
  split at h
  · cases h
  · rename_i left hleft
    obtain ⟨-, -, -, -, hlength⟩ := Form.stretch?_eq_some_iff.mp hleft
    split at h
    · cases h
    · split at h
      · cases h
      · cases h
      · rename_i hrefused
        exact TracedForm.apply_ne_refused (Nat.le_trans (Nat.le_of_eq hlength) hwidth) hrefused

/-- **No step faults.** -/
theorem step_ne_error : step g d ≠ .error fault := by
  have hamong : ∀ sites : List Site, (∀ site ∈ sites, site.width ≤ Production.widthLimit) →
      stepAmong g d sites ≠ .error fault := by
    intro sites hsites
    induction sites with
    | nil =>
      intro h
      cases h
    | cons site sites ih =>
      unfold stepAmong
      split
      · exact ih fun site hsite => hsites site (List.mem_cons_of_mem _ hsite)
      · exact stepAt_ne_error (hsites site List.mem_cons_self)
  exact hamong _ fun site => width_of_mem_sites

/-! ## 4. Recovery -/

theorem recoverAt_ne_error {start : Nat} : recoverAt g start t ≠ .error fault := by
  intro h
  unfold recoverAt at h
  split at h
  · cases h
  · rename_i left hleft
    obtain ⟨-, -, -, -, hlength⟩ := Form.stretch?_eq_some_iff.mp hleft
    split at h
    · cases h
    · split at h
      · cases h
      · cases h
      · rename_i hrefused
        have hwidth : left.length ≤ Production.widthLimit :=
          Nat.le_trans (Nat.le_of_eq hlength) (by decide : 2 ≤ 3)
        exact TracedForm.apply_ne_refused hwidth hrefused

theorem recoverLeft_faultless (start : Nat) (t : TracedForm) :
    Faultless (recoverLeft g start t) := by
  induction start generalizing t with
  | zero => exact faultless_ok t
  | succ i ih =>
    unfold recoverLeft
    split
    · rename_i fault hfault
      exact absurd hfault recoverAt_ne_error
    · exact ih _

theorem recoverState_faultless (g : Grammar) (d : Derivation) : Faultless (recoverState g d) := by
  have hwidth : (d.form[d.cursor]?.toList : Form).length ≤ Production.widthLimit := by
    cases d.form[d.cursor]? with
    | none => exact (by decide : 0 ≤ 3)
    | some symbol => exact (by decide : 1 ≤ 3)
  unfold recoverState
  split
  · exact faultless_ok _
  · simp only
    split
    · exact faultless_violation _
    · split
      · exact faultless_ok _
      · exact faultless_ok _
      · rename_i hrefused
        exact absurd hrefused (TracedForm.apply_ne_refused hwidth)

end Derivation

end TapeGrammar
