import TapeGrammar.Proofs.Confined
import TapeGrammar.Proofs.LockStep
import TapeGrammar.Session

/-!
# The check and the direct run

A word can be decided in two ways: by running the machine, and by checking the grammar.  If the
grammar is in lock-step with the machine the two agree on every word (`agrees_of_lockStep`): they
refuse the same words, exceed the same limits, and where the machine halts the verdict is about the
configuration in which it does.

Where they may differ is a matter of sizes: a check counts cells, and gives up where the number of
cells leaves the 64-bit range (`Overflows`).  `Fits` is enough for that not to happen.

The switch of a session that compares the two therefore never finds a difference.
-/

namespace TapeGrammar

/-! ## 1. Answers -/

/-- Whether the error says that the word is invalid. -/
def CheckError.isInvalidWord : CheckError → Bool
  | .emptyWord => true
  | .foreignLetters _ => true
  | _ => false

/-- Whether the error says that the word is invalid. -/
def RunError.isInvalidWord : RunError → Bool
  | .emptyWord => true
  | .foreignLetter _ => true
  | .stepLimit _ => false

/-- The answer of a direct run, with enough fuel. -/
def Automaton.RunsTo (a : Automaton) (limit : Option Nat) (word : Word)
    (result : Except RunError Outcome) : Prop :=
  ∃ fuel c, (Configuration.initial a).run a limit fuel word = some (result, c)

/-- A verdict reports an outcome: the same state, the same number of steps, the same decision, and
the word itself if it is accepted. -/
structure Verdict.Reports (verdict : Verdict) (word : Word) (outcome : Outcome) : Prop where
  state_eq : verdict.halt.state = outcome.state
  steps_eq : verdict.halt.steps = outcome.steps
  accepted_iff : verdict.isAccepted = outcome.accepted
  letters_eq : ∀ halt letters, verdict = .accepted halt letters → letters = word

theorem Verdict.reports_ofHalt (a : Automaton) (word : Word) (c : Configuration) (trace : Trace) :
    (Verdict.ofHalt a word c trace).Reports word (c.outcome a) := by
  unfold Verdict.ofHalt
  split
  · rename_i hfinal
    refine ⟨rfl, rfl, ?_, ?_⟩
    · simp [Verdict.isAccepted, Configuration.outcome, Configuration.isAccepted, hfinal]
    · intro halt letters h
      cases h
      rfl
  · rename_i hfinal
    refine ⟨rfl, rfl, ?_, ?_⟩
    · simp [Verdict.isAccepted, Configuration.outcome, Configuration.isAccepted, hfinal]
    · intro halt letters h
      cases h

/-- A verdict reports one outcome. -/
theorem Verdict.Reports.unique {verdict : Verdict} {word : Word} {o o' : Outcome}
    (h : verdict.Reports word o) (h' : verdict.Reports word o') : o = o' := by
  obtain ⟨state, steps, accepted⟩ := o
  obtain ⟨state', steps', accepted'⟩ := o'
  obtain rfl : state = state' := h.state_eq.symm.trans h'.state_eq
  obtain rfl : steps = steps' := h.steps_eq.symm.trans h'.steps_eq
  obtain rfl : accepted = accepted' := h.accepted_iff.symm.trans h'.accepted_iff
  rfl

/-- **The check and the direct run agree on a word.** -/
structure Agrees (g : Grammar) (limit : Option Nat) (word : Word) : Prop where
  invalidWord : (∃ error, error.isInvalidWord = true ∧ g.Answers limit word (.error error)) ↔
    ∃ error, error.isInvalidWord = true ∧ g.automaton.RunsTo limit word (.error error)
  stepLimit : ∀ k, g.Answers limit word (.error (.stepLimit k)) ↔
    g.automaton.RunsTo limit word (.error (.stepLimit k))
  outcome : ∀ outcome, g.automaton.RunsTo limit word (.ok outcome) ↔
    ∃ verdict, g.Answers limit word (.ok verdict) ∧ verdict.Reports word outcome

/-! ## 2. Words that are refused -/

section Refused

variable {a : Automaton} {g : Grammar} {limit : Option Nat} {word : Word}

/-- A direct run of a word that the automaton takes ends as its configurations do. -/
theorem Automaton.runsTo_iff (hword : a.Takes word) {result : Except RunError Outcome} :
    a.RunsTo limit word result ↔ ∃ c, Configuration.Ends a limit (.ofWord a word) result c := by
  have hload : (Configuration.initial a).load a word = (.ok (), .ofWord a word) := by
    simp only [Configuration.load, Configuration.wordError?_eq_none_iff.mpr hword]
  unfold Automaton.RunsTo Configuration.run
  simp only [hload]
  rw [exists_comm]
  exact exists_congr fun c => Configuration.toHalt_iff (Configuration.steps_ofWord word)

/-- A word that is refused is called invalid. -/
theorem Configuration.isInvalidWord_of_wordError? {error : RunError}
    (h : Configuration.wordError? a word = some error) : error.isInvalidWord = true := by
  unfold Configuration.wordError? at h
  split at h
  · cases h
    rfl
  · obtain ⟨letter, -, rfl⟩ := Option.map_eq_some_iff.mp h
    rfl

/-- A word that the automaton does not take is refused by the direct run. -/
theorem Automaton.refused_of_not_takes (limit : Option Nat) (hword : ¬ a.Takes word) :
    ∃ error, error.isInvalidWord = true ∧
      ∀ result, a.RunsTo limit word result ↔ result = .error error := by
  obtain ⟨error, herror⟩ : ∃ error, Configuration.wordError? a word = some error :=
    Option.ne_none_iff_exists'.mp fun h => hword (Configuration.wordError?_eq_none_iff.mp h)
  have hload : (Configuration.initial a).load a word = (.error error, .initial a) := by
    simp only [Configuration.load, herror]
  refine ⟨error, Configuration.isInvalidWord_of_wordError? herror, fun result => ?_⟩
  unfold Automaton.RunsTo Configuration.run
  simp only [hload]
  constructor
  · rintro ⟨fuel, c, h⟩
    cases h
    rfl
  · rintro rfl
    exact ⟨0, .initial a, rfl⟩

/-- A word that the automaton does not take is refused by the check. -/
theorem Grammar.refused_of_not_takes (limit : Option Nat) (hword : ¬ g.automaton.Takes word) :
    ∃ error, error.isInvalidWord = true ∧
      ∀ result, g.Answers limit word result ↔ result = .error error := by
  obtain ⟨error, herror⟩ : ∃ error, g.wordError? word = some error :=
    Option.ne_none_iff_exists'.mp fun h => hword (Grammar.wordError?_eq_none_iff.mp h)
  refine ⟨error, ?_, ?_⟩
  · rcases Grammar.wordError?_eq_some herror with rfl | ⟨letters, -, rfl⟩ <;> rfl
  · intro result
    unfold Grammar.Answers Grammar.check
    simp only [herror]
    constructor
    · rintro ⟨fuel, h⟩
      cases h
      rfl
    · rintro rfl
      exact ⟨0, rfl⟩

end Refused

/-! ## 3. Words that are taken -/

section Taken

variable {a : Automaton} {g : Grammar} {limit : Option Nat} {word : Word}
  {Mirrors : Padding → Derivation → Configuration → Prop}
  {edge? : Padding → Configuration → Option Direction}

/-- What a check answers is how the run ends, unless a size leaves the 64-bit range. -/
theorem LockStep.ends_of_answers (L : LockStep a g word Mirrors edge?) (hword : a.Takes word)
    {result : Except CheckError Verdict} (h : g.Answers limit word result) :
    (∃ k c, result = .error (.stepLimit k) ∧
        Configuration.Ends a limit (.ofWord a word) (.error (.stepLimit k)) c) ∨
      (∃ verdict c, result = .ok verdict ∧ verdict.Reports word (c.outcome a) ∧
        Configuration.Ends a limit (.ofWord a word) (.ok (c.outcome a)) c) ∨
      (result = .error (.fault .overflow) ∧ Overflows a limit word edge?) := by
  cases L.concludes_of_answers hword h with
  | limited k c hlimit hc => exact Or.inl ⟨k, c, rfl, .limited k c hlimit hc⟩
  | halted n c trace hc hallows hhalt =>
    exact Or.inr (Or.inl ⟨_, c, rfl, Verdict.reports_ofHalt a word c trace,
      .halted n c hc hhalt hallows⟩)
  | overflow hlarge => exact Or.inr (Or.inr ⟨rfl, hlarge⟩)

/-- A run that ends is answered by the check. -/
theorem LockStep.answers_of_ends (L : LockStep a g word Mirrors edge?) (hword : a.Takes word)
    {result : Except RunError Outcome} {c : Configuration}
    (h : Configuration.Ends a limit (.ofWord a word) result c) :
    ∃ answer, g.Answers limit word answer := by
  obtain ⟨m, hm⟩ := h.bounded
  exact L.answers_of_bounded hword hm

/-- The two agree on a word that the automaton takes. -/
theorem LockStep.agrees_of_takes (L : LockStep a g word Mirrors edge?) (hword : a.Takes word)
    (hsmall : ¬ g.Answers limit word (.error (.fault .overflow))) : Agrees g limit word := by
  have ha : g.automaton = a := L.automaton_eq
  refine ⟨?_, ?_, ?_⟩
  · rw [ha]
    constructor
    · rintro ⟨error, hinvalid, h⟩
      rcases L.ends_of_answers hword h with ⟨k, c, heq, -⟩ | ⟨verdict, c, heq, -⟩ | ⟨heq, -⟩
      all_goals cases heq
      all_goals cases hinvalid
    · rintro ⟨error, hinvalid, h⟩
      obtain ⟨c, hends⟩ := (Automaton.runsTo_iff hword).mp h
      cases hends with
      | limited k c' hlimit hc => cases hinvalid
  · intro k
    rw [ha, Automaton.runsTo_iff hword]
    constructor
    · intro h
      rcases L.ends_of_answers hword h with ⟨j, c, heq, hends⟩ | ⟨verdict, c, heq, -⟩ | ⟨heq, -⟩
      · cases heq
        exact ⟨c, hends⟩
      · cases heq
      · cases heq
    · rintro ⟨c, hends⟩
      obtain ⟨answer, h⟩ := L.answers_of_ends hword hends
      rcases L.ends_of_answers hword h with
        ⟨j, c', heq, hends'⟩ | ⟨verdict, c', heq, -, hends'⟩ | ⟨heq, -⟩
      · obtain ⟨hk, -⟩ := hends.unique hends'
        cases hk
        rw [heq] at h
        exact h
      · obtain ⟨hk, -⟩ := hends.unique hends'
        cases hk
      · rw [heq] at h
        exact absurd h hsmall
  · intro outcome
    rw [ha, Automaton.runsTo_iff hword]
    constructor
    · rintro ⟨c, hends⟩
      obtain ⟨answer, h⟩ := L.answers_of_ends hword hends
      rcases L.ends_of_answers hword h with
        ⟨j, c', heq, hends'⟩ | ⟨verdict, c', heq, hreports, hends'⟩ | ⟨heq, -⟩
      · obtain ⟨hk, -⟩ := hends.unique hends'
        cases hk
      · obtain ⟨hk, -⟩ := hends.unique hends'
        cases hk
        rw [heq] at h
        exact ⟨verdict, h, hreports⟩
      · rw [heq] at h
        exact absurd h hsmall
    · rintro ⟨verdict, h, hreports⟩
      rcases L.ends_of_answers hword h with
        ⟨j, c, heq, -⟩ | ⟨verdict', c, heq, hreports', hends⟩ | ⟨heq, -⟩
      · cases heq
      · cases heq
        rw [hreports.unique hreports']
        exact ⟨c, hends⟩
      · cases heq

end Taken

/-! ## 4. All words -/

section

variable {g : Grammar} {word : Word} {Mirrors : Padding → Derivation → Configuration → Prop}
  {edge? : Padding → Configuration → Option Direction}

/-- **A grammar in lock-step with its machine agrees with the direct run on every word.** -/
theorem agrees_of_lockStep
    (L : g.automaton.Takes word → LockStep g.automaton g word Mirrors edge?) (limit : Option Nat)
    (hsmall : ¬ g.Answers limit word (.error (.fault .overflow))) : Agrees g limit word := by
  by_cases hword : g.automaton.Takes word
  · exact (L hword).agrees_of_takes hword hsmall
  · obtain ⟨error, hinvalid, hcheck⟩ := Grammar.refused_of_not_takes limit hword
    obtain ⟨error', hinvalid', hrun⟩ := Automaton.refused_of_not_takes limit hword
    refine ⟨?_, ?_, ?_⟩
    · constructor
      · exact fun _ => ⟨error', hinvalid', (hrun _).mpr rfl⟩
      · exact fun _ => ⟨error, hinvalid, (hcheck _).mpr rfl⟩
    · intro k
      rw [hcheck, hrun]
      constructor
      · intro h
        cases h
        cases hinvalid
      · intro h
        cases h
        cases hinvalid'
    · intro outcome
      rw [hrun]
      constructor
      · intro h
        cases h
      · rintro ⟨verdict, h, -⟩
        cases (hcheck _).mp h

/-- What goes wrong in a check of a grammar in lock-step is a matter of sizes. -/
theorem answers_of_lockStep
    (L : g.automaton.Takes word → LockStep g.automaton g word Mirrors edge?) {limit : Option Nat}
    {error : CheckError} (h : g.Answers limit word (.error error)) :
    error.isInvalidWord = true ∨ (∃ k, error = .stepLimit k) ∨
      (error = .fault .overflow ∧ Overflows g.automaton limit word edge?) := by
  by_cases hword : g.automaton.Takes word
  · rcases (L hword).ends_of_answers hword h with ⟨k, c, heq, -⟩ | ⟨verdict, c, heq, -⟩ | ⟨heq, hfit⟩
    · cases heq
      exact Or.inr (Or.inl ⟨k, rfl⟩)
    · cases heq
    · cases heq
      exact Or.inr (Or.inr ⟨rfl, hfit⟩)
  · obtain ⟨error', hinvalid, hcheck⟩ := Grammar.refused_of_not_takes limit hword
    cases (hcheck _).mp h
    exact Or.inl hinvalid

/-- A check that overflows has to count further than 64 bits go. -/
theorem overflows_of_answers
    (L : g.automaton.Takes word → LockStep g.automaton g word Mirrors edge?) {limit : Option Nat}
    (h : g.Answers limit word (.error (.fault .overflow))) :
    Overflows g.automaton limit word edge? := by
  rcases answers_of_lockStep L h with hinvalid | ⟨k, hk⟩ | ⟨-, hlarge⟩
  · cases hinvalid
  · cases hk
  · exact hlarge

/-- **A grammar in lock-step with its machine never contradicts it.** -/
theorem not_answers_violation
    (L : g.automaton.Takes word → LockStep g.automaton g word Mirrors edge?) (limit : Option Nat)
    (cause : Violation) : ¬ g.Answers limit word (.error (.violation cause)) := by
  intro h
  rcases answers_of_lockStep L h with hinvalid | ⟨k, hk⟩ | ⟨hfault, -⟩
  · cases hinvalid
  · cases hk
  · cases hfault

/-- **The direct run never contradicts a verdict.** -/
theorem crossCheck_of_lockStep {session : Session} {fuel n : Nat} {verdict : Verdict}
    (L : g.automaton.Takes (Unary.word n) →
      LockStep g.automaton g (Unary.word n) Mirrors edge?)
    (h : g.check session.preferences.maxSteps fuel (Unary.word n) = some (.ok verdict))
    (outcome : Outcome) (verdict' : Verdict) :
    session.crossCheck g fuel n verdict ≠ some (.error (.disagreement outcome verdict')) := by
  have hword : g.automaton.Takes (Unary.word n) := by
    by_contra hword
    obtain ⟨error, -, hcheck⟩ :=
      Grammar.refused_of_not_takes session.preferences.maxSteps hword
    cases (hcheck _).mp ⟨fuel, h⟩
  obtain ⟨c, hreports, hends⟩ : ∃ c, verdict.Reports (Unary.word n) (c.outcome g.automaton) ∧
      Configuration.Ends g.automaton session.preferences.maxSteps
        (.ofWord g.automaton (Unary.word n)) (.ok (c.outcome g.automaton)) c := by
    rcases (L hword).ends_of_answers hword ⟨fuel, h⟩ with
      ⟨k, c, heq, -⟩ | ⟨verdict, c, heq, hreports, hends⟩ | ⟨heq, -⟩
    · cases heq
    · cases heq
      exact ⟨c, hreports, hends⟩
    · cases heq
  unfold Session.crossCheck
  split
  · split
    · simp
    · simp
    · rename_i outcome' c' hrun
      obtain ⟨c'', hends'⟩ := (Automaton.runsTo_iff hword).mp ⟨fuel, c', hrun⟩
      obtain ⟨heq, -⟩ := hends'.unique hends
      cases heq
      rw [if_pos ⟨hreports.accepted_iff.symm, hreports.steps_eq.symm⟩]
      simp
  · simp

/-- **A session never reports a disagreement.** -/
theorem check_ne_disagreement {session : Session} {kind : Kind} {n : Nat}
    (hg : session.grammar kind = g)
    (L : g.automaton.Takes (Unary.word n) → LockStep g.automaton g (Unary.word n) Mirrors edge?)
    (fuel : Nat) (outcome : Outcome) (verdict : Verdict) :
    session.check fuel kind n ≠ some (.error (.disagreement outcome verdict)) := by
  subst hg
  unfold Session.check
  simp only
  split
  · simp
  · simp
  · rename_i verdict' hnumber
    have hcross := crossCheck_of_lockStep L (Grammar.check_of_checkNumber hnumber) outcome verdict
    split
    · simp
    · rename_i error herror
      rw [herror] at hcross
      exact fun heq => hcross (by simpa using heq)
    · split <;> simp

end

end TapeGrammar
