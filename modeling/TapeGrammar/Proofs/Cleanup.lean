import TapeGrammar.Proofs.ContextSensitive.Productions
import TapeGrammar.Proofs.Fuel
import TapeGrammar.Proofs.Faultless
import TapeGrammar.Proofs.Unrestricted.Productions
import TapeGrammar.Proofs.Weight

/-!
# Recovery comes to an end

The scan to the right goes on as long as there are symbols, and it makes the form longer: a cell and a
token become a letter between two tokens.  It ends because a cell can be replaced only once.  The BULK
of a form counts every symbol, and the composites of two labels twice; no recovery production of any
automaton adds to it (`Recovers`).  So the bulk bounds how far the scan can go.

That holds of every derivation and every state, whether the machine got there or not, and no matter
what the names of an automaton are.
-/

namespace TapeGrammar

/-- A composite of two labels counts twice. -/
def bulk : Symbol → Nat
  | .nonTerminal [_, _] => 2
  | _ => 1

theorem one_le_bulk (s : Symbol) : 1 ≤ bulk s := by
  unfold bulk
  split <;> decide

/-- Recovery productions do not add to the bulk, and a production that replaces a single label removes
it. -/
structure Recovers (g : Grammar) : Prop where
  bulk_le : ∀ p ∈ g.recovery, weigh bulk p.right ≤ weigh bulk p.left
  vanishes : ∀ {state : String} {right : Form},
    (⟨[.nonTerminal [state]], right⟩ : Production) ∈ g.recovery → right = []

/-! ## 1. The recovery productions of an automaton -/

namespace Unrestricted

variable {a : Automaton} {blank : String} {p : Production}

theorem bulk_recovery (hp : p ∈ recovery a) : weigh bulk p.right ≤ weigh bulk p.left := by
  obtain ⟨q, -, rfl | ⟨origin, -, symbol, -, rfl | rfl⟩⟩ := mem_recovery_iff.mp hp
  · exact Nat.zero_le _
  all_goals
    unfold passed
    split <;> simp [bulk, token, cell]

theorem recovers (hb : a.boundary = .blank blank) : Recovers (Grammar.ofAutomaton a) where
  bulk_le p hp := bulk_recovery ((mem_recovery hb).mp hp)
  vanishes {state right} hp := by
    obtain ⟨q, -, h | ⟨origin, -, symbol, -, h | h⟩⟩ :=
      mem_recovery_iff.mp ((mem_recovery hb).mp hp)
    · exact congrArg Production.right h
    · cases congrArg (List.length ∘ Production.left) h
    · cases congrArg (List.length ∘ Production.left) h

end Unrestricted

namespace ContextSensitive

variable {a : Automaton} {left right : String} {v : Vocabulary} {finals : List String}
  {p : Production}

theorem bulk_recovery (hp : p ∈ recovery finals v) :
    weigh bulk p.right ≤ weigh bulk p.left := by
  have hlength : p.right.length ≤ weigh bulk p.left := by
    refine Nat.le_trans ?_ (length_le_weigh one_le_bulk p.left)
    obtain ⟨letter, -, x, -, ⟨q, -, place, rfl⟩ | ⟨b, -, ⟨trail, rfl⟩ | ⟨lead, rfl⟩⟩⟩ :=
      mem_recovery_iff.mp hp <;> exact Nat.le_refl _
  -- the right side has letters only
  obtain ⟨letter, -, x, -, ⟨q, -, place, rfl⟩ | ⟨b, -, ⟨trail, rfl⟩ | ⟨lead, rfl⟩⟩⟩ :=
    mem_recovery_iff.mp hp <;> exact hlength

theorem recovers (hm : a.boundary = .markers left right) : Recovers (Grammar.ofAutomaton a) where
  bulk_le p hp := bulk_recovery ((mem_recovery hm).mp hp)
  vanishes {state right'} hp := by
    obtain ⟨letter, -, x, -, ⟨q, -, place, h⟩ | ⟨b, -, ⟨trail, h⟩ | ⟨lead, h⟩⟩⟩ :=
      mem_recovery_iff.mp ((mem_recovery hm).mp hp)
    · have hleft := congrArg Production.left h
      exact absurd (List.singleton_inj.mp hleft).symm (carrying_ne_single place state)
    · cases congrArg (List.length ∘ Production.left) h
    · cases congrArg (List.length ∘ Production.left) h

end ContextSensitive

theorem recovers_ofAutomaton (a : Automaton) : Recovers (Grammar.ofAutomaton a) := by
  cases hb : a.boundary with
  | blank blank => exact Unrestricted.recovers hb
  | markers left right => exact ContextSensitive.recovers hb

namespace Derivation

variable {g : Grammar} {t t' : TracedForm}

/-! ## 2. The scans -/

theorem bulk_of_recoverAt (hg : Recovers g) {start : Nat} (h : recoverAt g start t = .ok t') :
    weigh bulk t'.form ≤ weigh bulk t.form := by
  obtain ⟨productions, hreplays⟩ := replays_of_recoverAt h
  exact hreplays.derives.weigh_le hg.bulk_le

/-- A round of the scan to the right ends it, or brings its position nearer to the bulk of the form. -/
theorem recoverRightRound_cases (hg : Recovers g) (i : Nat) (t : TracedForm) :
    recoverRightRound g (i, t) = .done (.ok t) ∨
      ∃ t', recoverRightRound g (i, t) = .again (i + 1, t') ∧
        weigh bulk t'.form - (i + 1) < weigh bulk t.form - i := by
  by_cases hlt : i + 1 < t.form.length
  · cases hat : recoverAt g i t with
    | error fault => exact absurd hat recoverAt_ne_error
    | ok t' =>
      have hbulk := bulk_of_recoverAt hg hat
      have hlength := length_le_weigh one_le_bulk t.form
      refine Or.inr ⟨t', ?_, by omega⟩
      simp only [recoverRightRound, if_pos hlt, hat]
  · exact Or.inl (if_neg hlt)

/-- **The scan to the right comes to an end**, since the bulk of the form bounds its position. -/
theorem recoverRight_ends (hg : Recovers g) (start : Nat) (t : TracedForm) :
    ∃ fuel result, recoverRight g fuel start t = some result ∧ Faultless result := by
  refine ⟨weigh bulk t.form - start + 1, ?_⟩
  refine iterate_ends (I := fun _ => True) (P := Faultless)
    (m := fun state => weigh bulk state.2.form - state.1) ?_ trivial (Nat.lt_succ_self _)
  rintro ⟨i, s⟩ -
  rcases recoverRightRound_cases hg i s with hdone | ⟨s', hagain, hlt⟩
  · exact Or.inl ⟨_, congrArg some hdone, faultless_ok s⟩
  · exact Or.inr ⟨_, congrArg some hagain, trivial, hlt⟩

/-! ## 3. The tokens -/

/-- A round of removing tokens ends that, or makes the form shorter. -/
theorem removeRound_cases (s : Symbol) (i : Nat) (t : TracedForm) :
    removeRound [s] [] (i, t) = .done (.ok (i, t)) ∨
      ∃ t', removeRound [s] [] (i, t) = .again (i + 1, t') ∧
        t'.form.length < t.form.length := by
  cases happly : t.apply [s] [] with
  | absent => exact Or.inl (by simp only [removeRound, happly])
  | applied t' =>
    have hlength := TracedForm.weigh_of_apply (fun _ => 1) happly
    simp only [weigh_const, List.length_singleton, List.length_nil] at hlength
    refine Or.inr ⟨t', ?_, by omega⟩
    simp only [removeRound, happly]
  | refused fault t' =>
    have hwidth : [s].length ≤ Production.widthLimit := (by decide : 1 ≤ 3)
    exact absurd happly (TracedForm.apply_ne_refused hwidth)

/-- **The removal of tokens comes to an end**, since each of them makes the form shorter. -/
theorem removeTokens_ends (hg : Recovers g) (state : String) (t : TracedForm) :
    ∃ fuel result, removeTokens g fuel state t = some result ∧ Faultless result := by
  cases hfirst : g.recovery.first? [.nonTerminal [state]] with
  | none => exact ⟨0, .ok (0, t), by simp only [removeTokens, hfirst], faultless_ok _⟩
  | some right =>
    obtain rfl := hg.vanishes (Productions.mem_of_first? hfirst)
    refine ⟨t.form.length + 1, ?_⟩
    simp only [removeTokens, hfirst]
    refine iterate_ends (I := fun _ => True) (P := Faultless)
      (m := fun state' => state'.2.form.length) ?_ trivial (Nat.lt_succ_self _)
    rintro ⟨i, s⟩ -
    rcases removeRound_cases (.nonTerminal [state]) i s with hdone | ⟨s', hagain, hlt⟩
    · exact Or.inl ⟨_, congrArg some hdone, faultless_ok _⟩
    · exact Or.inr ⟨_, congrArg some hagain, trivial, hlt⟩

/-! ## 4. The whole configuration -/

/-- **Recovery comes to an end without a fault**, on every derivation and for every state. -/
theorem recoverWord_ends (hg : Recovers g) (state : String) (d : Derivation) :
    ∃ fuel result, recoverWord g fuel state d = some result ∧ Faultless result := by
  have hstate := recoverState_faultless g d
  unfold recoverWord
  cases hbegun : recoverState g d with
  | error error =>
    rw [hbegun] at hstate
    exact ⟨0, .error error, rfl, hstate.error⟩
  | ok begun =>
    obtain ⟨fuel, result, hright, hfaultless⟩ := recoverRight_ends hg d.cursor begun
    cases result with
    | error error => exact ⟨fuel, .error error, by simp only [hright], hfaultless.error⟩
    | ok scanned =>
      have hleft := recoverLeft_faultless (g := g) d.cursor scanned
      cases hboth : recoverLeft g d.cursor scanned with
      | error error =>
        rw [hboth] at hleft
        exact ⟨fuel, .error error, by simp only [hright, hboth], hleft.error⟩
      | ok both =>
        obtain ⟨fuel', result, hremove, hfaultless'⟩ := removeTokens_ends hg state both
        have hright' : recoverRight g (max fuel fuel') d.cursor begun = some (.ok scanned) :=
          iterate_of_le (Nat.le_max_left _ _) hright
        have hremove' := removeTokens_of_le (Nat.le_max_right fuel fuel') hremove
        refine ⟨max fuel fuel', ?_⟩
        cases result with
        | error error =>
          exact ⟨.error error, by simp only [hright', hboth, hremove'], hfaultless'.error⟩
        | ok removed =>
          by_cases hkept : g.kind = .unrestricted ∧ removed.1 = 0
          · exact ⟨.error (.violation (.tokenKept state removed.2.form)),
              by simp only [hright', hboth, hremove', if_pos hkept], faultless_violation _⟩
          · exact ⟨.ok removed.2, by simp only [hright', hboth, hremove', if_neg hkept],
              faultless_ok _⟩

end Derivation

end TapeGrammar
