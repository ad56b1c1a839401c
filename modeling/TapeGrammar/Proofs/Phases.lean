import TapeGrammar.Derivation.Check
import TapeGrammar.Proofs.Reading
import TapeGrammar.Proofs.Replay
import TapeGrammar.Proofs.Table

/-!
# The phases of a derivation

Whatever a derivation does can be replayed: every phase applies productions of its own table
(section 1).  The converse is not true of a phase, which does one particular thing.

What a plan does can be said without traces, as long as each of its productions replaces one symbol
and meets it once (section 2).  What recovery ends with is what the configuration spells (section 4).
-/

namespace TapeGrammar

/-! ## 1. Phases replay productions of their tables -/

/-- More productions derive more. -/
theorem Derives.mono {allowed allowed' : Production → Prop} (h : ∀ p, allowed p → allowed' p)
    {form form' : Form} (hd : Derives allowed form form') : Derives allowed' form form' := by
  refine Relation.ReflTransGen.mono ?_ _ _ hd
  rintro _ _ ⟨before, behind, p, hp⟩
  exact .replace before behind p (h p hp)

/-- The productions that a plan asks for, each as often as it is to be applied. -/
def Plan.productions (plan : Plan) : List Production :=
  plan.flatMap fun step => List.replicate step.times step.production

namespace Derivation

variable {g : Grammar} {t t' : TracedForm} {d d' : Derivation}

theorem replays_of_applyTimes {p : Production} (hp : p ∈ g.generation) {times : Nat}
    (h : applyTimes p times t = .ok t') :
    Replays (· ∈ g.generation) t (List.replicate times p) t' := by
  induction times generalizing t with
  | zero =>
    cases h
    exact .refl _
  | succ times ih =>
    unfold applyTimes at h
    split at h
    · cases h
    · rename_i next hnext
      rw [List.replicate_succ, ← List.singleton_append]
      exact (Replays.single hp hnext).append (ih h)
    · cases h

/-- **A plan that is carried out replays what it asks for.** -/
theorem replays_of_followPlan {plan : Plan} (h : followPlan g plan t = .ok t') :
    Replays (· ∈ g.generation) t plan.productions t' := by
  induction plan generalizing t with
  | nil =>
    cases h
    exact .refl _
  | cons step plan ih =>
    unfold followPlan at h
    split at h
    · rename_i hmem
      split at h
      · cases h
      · rename_i result hresult
        exact (replays_of_applyTimes hmem hresult).append (ih h)
    · cases h

/-- The plan for a word is replayed from the start symbol. -/
theorem replays_of_ofWord {word : Word} {padding : Padding} (h : ofWord g word padding = .ok d) :
    Replays (· ∈ g.generation) (.ofForm [g.start]) (g.plan word padding).productions d.traced ∧
      d.steps = 0 := by
  simp only [ofWord] at h
  split at h
  · cases h
  · rename_i traced htraced
    cases h
    exact ⟨replays_of_followPlan htraced, rfl⟩

/-- Two symbols are replaced by a recovery production, if at all. -/
theorem replays_of_recoverAt {start : Nat} (h : recoverAt g start t = .ok t') :
    ∃ productions, Replays (· ∈ g.recovery) t productions t' := by
  unfold recoverAt at h
  split at h
  · cases h
    exact ⟨_, .refl _⟩
  · split at h
    · cases h
      exact ⟨_, .refl _⟩
    · rename_i right hfirst
      split at h
      · cases h
        exact ⟨_, .refl _⟩
      · rename_i result hresult
        cases h
        exact ⟨_, .single (Productions.mem_of_first? hfirst) hresult⟩
      · cases h

theorem replays_of_recoverRight {fuel start : Nat}
    (h : recoverRight g fuel start t = some (.ok t')) :
    ∃ productions, Replays (· ∈ g.recovery) t productions t' := by
  refine iterate_invariant
    (I := fun s => ∃ productions, Replays (· ∈ g.recovery) t productions s.2)
    (P := fun out => ∀ t', out = .ok t' → ∃ productions, Replays (· ∈ g.recovery) t productions t')
    ?_ ?_ ⟨_, .refl _⟩ h t' rfl
  · rintro ⟨i, s⟩ next ⟨productions, hs⟩ hround
    simp only [recoverRightRound, Option.some.injEq] at hround
    split at hround
    · split at hround
      · cases hround
      · rename_i result hresult
        cases hround
        obtain ⟨more, hmore⟩ := replays_of_recoverAt hresult
        exact ⟨_, hs.append hmore⟩
    · cases hround
  · rintro ⟨i, s⟩ out hs hround t' rfl
    simp only [recoverRightRound, Option.some.injEq] at hround
    split at hround
    · split at hround <;> cases hround
    · cases hround
      exact hs

theorem replays_of_recoverLeft {start : Nat} (h : recoverLeft g start t = .ok t') :
    ∃ productions, Replays (· ∈ g.recovery) t productions t' := by
  induction start generalizing t with
  | zero =>
    cases h
    exact ⟨_, .refl _⟩
  | succ i ih =>
    unfold recoverLeft at h
    split at h
    · cases h
    · rename_i result hresult
      obtain ⟨first, hfirst⟩ := replays_of_recoverAt hresult
      obtain ⟨more, hmore⟩ := ih h
      exact ⟨_, hfirst.append hmore⟩

theorem replays_of_recoverState (h : recoverState g d = .ok t') :
    ∃ productions, Replays (· ∈ g.recovery) d.traced productions t' := by
  unfold recoverState at h
  split at h
  · cases h
    exact ⟨_, .refl _⟩
  · simp only at h
    split at h
    · cases h
    · rename_i right hfirst
      split at h
      · cases h
        exact ⟨_, .refl _⟩
      · rename_i result hresult
        cases h
        exact ⟨_, .single (Productions.mem_of_first? hfirst) hresult⟩
      · cases h

theorem replays_of_removeTokens {fuel count : Nat} {state : String}
    (h : removeTokens g fuel state t = some (.ok (count, t'))) :
    ∃ productions, Replays (· ∈ g.recovery) t productions t' := by
  simp only [removeTokens] at h
  split at h
  · cases h
    exact ⟨_, .refl _⟩
  · rename_i right hfirst
    refine iterate_invariant
      (I := fun s => ∃ productions, Replays (· ∈ g.recovery) t productions s.2)
      (P := fun out => ∀ r, out = .ok r →
        ∃ productions, Replays (· ∈ g.recovery) t productions r.2)
      ?_ ?_ ⟨_, .refl _⟩ h _ rfl
    · rintro ⟨i, s⟩ next ⟨productions, hs⟩ hround
      simp only [removeRound, Option.some.injEq] at hround
      split at hround
      · cases hround
      · rename_i result hresult
        cases hround
        exact ⟨_, hs.append (.single (Productions.mem_of_first? hfirst) hresult)⟩
      · cases hround
    · rintro ⟨i, s⟩ out hs hround r rfl
      simp only [removeRound, Option.some.injEq] at hround
      split at hround
      · cases hround
        exact hs
      · cases hround
      · cases hround

/-- **Recovery replays recovery productions** from the configuration to what it ends with. -/
theorem replays_of_recoverWord {fuel : Nat} {state : String}
    (h : recoverWord g fuel state d = some (.ok t')) :
    ∃ productions, Replays (· ∈ g.recovery) d.traced productions t' := by
  unfold recoverWord at h
  split at h
  · cases h
  · rename_i begun hbegun
    split at h
    · cases h
    · cases h
    · rename_i right hright
      split at h
      · cases h
      · rename_i both hboth
        split at h
        · cases h
        · cases h
        · rename_i count t hremove
          split at h
          · cases h
          · cases h
            obtain ⟨_, hstate⟩ := replays_of_recoverState hbegun
            obtain ⟨_, hright⟩ := replays_of_recoverRight hright
            obtain ⟨_, hleft⟩ := replays_of_recoverLeft hboth
            obtain ⟨_, htokens⟩ := replays_of_removeTokens hremove
            exact ⟨_, ((hstate.append hright).append hleft).append htokens⟩

/-- Recovery derives what it ends with from the configuration. -/
theorem derives_of_recoverWord {fuel : Nat} {state : String}
    (h : recoverWord g fuel state d = some (.ok t')) :
    Derives (· ∈ g.recovery) d.form t'.form := by
  obtain ⟨_, hreplays⟩ := replays_of_recoverWord h
  exact hreplays.derives

/-! ## 2. What a plan does -/

/-- A plan leads from any derivation that has reached the one form to one that has reached the
other. -/
def Carries (g : Grammar) (plan : Plan) (form form' : Form) : Prop :=
  ∀ t : TracedForm, t.form = form → ∃ t', followPlan g plan t = .ok t' ∧ t'.form = form'

theorem carries_nil (form : Form) : Carries g [] form form := fun t ht => ⟨t, rfl, ht⟩

theorem followPlan_append {plan plan' : Plan} (h : followPlan g plan t = .ok t') :
    followPlan g (plan ++ plan') t = followPlan g plan' t' := by
  induction plan generalizing t with
  | nil =>
    cases h
    rfl
  | cons step plan ih =>
    unfold followPlan at h
    split at h
    · rename_i hmem
      split at h
      · cases h
      · rename_i result hresult
        rw [List.cons_append, followPlan, if_pos hmem, hresult]
        exact ih h
    · cases h

/-- Plans are carried out one after the other. -/
theorem Carries.append {plan plan' : Plan} {form₁ form₂ form₃ : Form}
    (h : Carries g plan form₁ form₂) (h' : Carries g plan' form₂ form₃) :
    Carries g (plan ++ plan') form₁ form₃ := by
  intro t ht
  obtain ⟨t', ht', hform⟩ := h t ht
  obtain ⟨t'', ht'', hform'⟩ := h' t' hform
  exact ⟨t'', by rw [followPlan_append ht', ht''], hform'⟩

/-- **A production that replaces one symbol and leaves it at the end** moves it to the right. -/
theorem carries_repeated {left right mid : Form} {s : Symbol}
    (hmem : (⟨[s], mid ++ [s]⟩ : Production) ∈ g.generation) (hleft : s ∉ left) (hmid : s ∉ mid)
    (times : Nat) :
    Carries g [.repeated s (mid ++ [s]) times] (left ++ [s] ++ right)
      (left ++ (List.replicate times mid).flatten ++ [s] ++ right) := by
  intro t ht
  suffices h : ∃ t', applyTimes ⟨[s], mid ++ [s]⟩ times t = .ok t' ∧
      t'.form = left ++ (List.replicate times mid).flatten ++ [s] ++ right by
    obtain ⟨t', ht', hform⟩ := h
    refine ⟨t', ?_, hform⟩
    simp only [followPlan, PlanStep.repeated, if_pos hmem, ht']
  clear hmem
  induction times generalizing left t with
  | zero => exact ⟨t, rfl, by simpa using ht⟩
  | succ times ih =>
    have happly := TracedForm.apply_of_not_mem ht hleft (mid ++ [s])
    have hleft' : s ∉ left ++ mid := by simp [hleft, hmid]
    obtain ⟨t', ht', hform⟩ := ih hleft'
      ⟨left ++ (mid ++ [s]) ++ right, t.trace.push ⟨[s], mid ++ [s]⟩⟩ (by simp)
    refine ⟨t', ?_, ?_⟩
    · simp only [applyTimes, happly, ht']
    · rw [hform, List.replicate_succ, List.flatten_cons]
      simp only [List.append_assoc]

/-- A production that replaces one symbol once. -/
theorem carries_single {left right new : Form} {s : Symbol}
    (hmem : (⟨[s], new⟩ : Production) ∈ g.generation) (hleft : s ∉ left) :
    Carries g [.single s new] (left ++ [s] ++ right) (left ++ new ++ right) := by
  intro t ht
  have happly := TracedForm.apply_of_not_mem ht hleft new
  refine ⟨⟨left ++ new ++ right, t.trace.push ⟨[s], new⟩⟩, ?_, rfl⟩
  simp only [followPlan, PlanStep.single, PlanStep.repeated, if_pos hmem, applyTimes, happly]

/-- A symbol at the end of the form is replaced once. -/
theorem carries_last {left new : Form} {s : Symbol}
    (hmem : (⟨[s], new⟩ : Production) ∈ g.generation) (hleft : s ∉ left) :
    Carries g [.single s new] (left ++ [s]) (left ++ new) := by
  have h : Carries g [.single s new] (left ++ [s] ++ []) (left ++ new ++ []) :=
    carries_single hmem hleft
  rw [List.append_nil, List.append_nil] at h
  exact h

/-! ## 3. What recovery does at a position -/

/-- Two symbols that recovery replaces, where they occur first. -/
theorem recoverAt_of_first? {left right new : Form} {s s' : Symbol}
    (hform : t.form = left ++ [s, s'] ++ right) (hfirst : g.recovery.first? [s, s'] = some new)
    (hmin : Form.Leftmost left [s, s'] right) :
    recoverAt g left.length t = .ok ⟨left ++ new ++ right, t.trace.push ⟨[s, s'], new⟩⟩ := by
  have hstretch : Form.stretch? t.form left.length 2 = some [s, s'] :=
    Form.stretch?_eq_some_iff.mpr ⟨left, right, hform, rfl, rfl⟩
  have hwidth : Production.HasWidth ⟨[s, s'], new⟩ := (by decide : 1 ≤ 2 ∧ 2 ≤ 3)
  have happly := TracedForm.apply_of_leftmost hform hwidth hmin
  simp only [recoverAt, hstretch, hfirst, happly]

/-- Two symbols that recovery does not know stay. -/
theorem recoverAt_of_first?_none {left right : Form} {s s' : Symbol}
    (hform : t.form = left ++ [s, s'] ++ right) (hfirst : g.recovery.first? [s, s'] = none) :
    recoverAt g left.length t = .ok t := by
  have hstretch : Form.stretch? t.form left.length 2 = some [s, s'] :=
    Form.stretch?_eq_some_iff.mpr ⟨left, right, hform, rfl, rfl⟩
  simp only [recoverAt, hstretch, hfirst]

/-- One round of the scan to the right, where there are two symbols. -/
theorem recoverRightRound_of_lt {start : Nat} (hlt : start + 1 < t.form.length)
    (h : recoverAt g start t = .ok t') :
    recoverRightRound g (start, t) = .again (start + 1, t') := by
  simp only [recoverRightRound, if_pos hlt, h]

/-- The scan to the right ends at the last symbol. -/
theorem recoverRightRound_of_ge {start : Nat} (hge : t.form.length ≤ start + 1) :
    recoverRightRound g (start, t) = .done (.ok t) := by
  simp only [recoverRightRound, if_neg (Nat.not_lt.mpr hge)]

/-! ## 4. What recovery ends with -/

/-- If recovery keeps what a form spells, the letters that it ends with are those that the
configuration spells. -/
theorem letters_of_recoverWord (r : Reading) {fuel : Nat} {state : String}
    (hkept : ∀ p ∈ g.recovery, r.spelled p.left = r.spelled p.right)
    (h : recoverWord g fuel state d = some (.ok t)) (hterminal : t.form.isTerminal = true) :
    Form.letters t.form = r.spelled d.form := by
  rw [r.letters_of_isTerminal hterminal, r.spelled_of_derives hkept (derives_of_recoverWord h)]

/-- **Three phases generate a word**: generation, any transition productions, and a recovery of what
they have reached, which need not be where the machine halts. -/
theorem generates_of_phases (r : Reading) {word : Word} {padding : Padding} {fuel : Nat}
    {state : String} (hgenerated : ofWord g word padding = .ok d)
    (hmoves : Derives (· ∈ g.transition) d.form d'.form)
    (hkept : ∀ p ∈ g.recovery, r.spelled p.left = r.spelled p.right)
    (hrecover : recoverWord g fuel state d' = some (.ok t)) (hterminal : t.form.isTerminal = true)
    (hword : r.spelled d'.form = word) : g.Generates word := by
  have hrecovered := derives_of_recoverWord hrecover
  have hform : t.form = word.map .terminal := by
    rw [r.eq_of_isTerminal hterminal, ← r.spelled_of_derives hkept hrecovered, hword]
  rw [Grammar.Generates, ← hform]
  refine Relation.ReflTransGen.trans
    ((replays_of_ofWord hgenerated).1.derives.mono fun p hp => Or.inl hp) ?_
  refine Relation.ReflTransGen.trans (hmoves.mono fun p hp => Or.inr (Or.inl hp)) ?_
  exact hrecovered.mono fun p hp => Or.inr (Or.inr hp)

end Derivation

end TapeGrammar
