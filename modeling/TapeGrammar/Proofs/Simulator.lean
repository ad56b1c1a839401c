import TapeGrammar.Proofs.Run

/-!
# Histories of a simulator

A SIMULATOR is used by three calls: a word is loaded, a step is made, a word is run.  Its HISTORY is a
list of calls, in any order, with words that are refused and runs that the limit ends among them.  Here
the machine on its tape is put as a simulator (`Simulator.arrays`), and two simulators are compared:
they AGREE if related states give the same answers and lead to related states, call by call, and then
they do so for every history (`Simulator.Agree.calls?`).

Running a word is loading it and making steps.  So simulators that agree on these two agree on runs
(`Simulator.agree_ofSteps`).
-/

namespace TapeGrammar

/-! ## 1. Loops that go on alike -/

section

variable {σ τ α β γ δ : Type} {P : α → β → Prop} {Q : γ → δ → Prop} {R : σ → τ → Prop} {x : Option α}
  {y : Option β}

theorem rel_bind {f : α → Option γ} {g : β → Option δ} (h : Option.Rel P x y)
    (hfg : ∀ a b, P a b → Option.Rel Q (f a) (g b)) : Option.Rel Q (x.bind f) (y.bind g) := by
  cases h with
  | none => exact .none
  | some hab => exact hfg _ _ hab

theorem rel_map {f : α → γ} {g : β → δ} (h : Option.Rel P x y)
    (hfg : ∀ a b, P a b → Q (f a) (g b)) : Option.Rel Q (x.map f) (y.map g) := by
  cases h with
  | none => exact .none
  | some hab => exact .some (hfg _ _ hab)

/-- Rounds that go on in related states, or are done with related results. -/
inductive RoundRel (R : σ → τ → Prop) (P : α → β → Prop) : Round σ α → Round τ β → Prop where
  | again {s : σ} {t : τ} : R s t → RoundRel R P (.again s) (.again t)
  | done {a : α} {b : β} : P a b → RoundRel R P (.done a) (.done b)

/-- **Loops whose rounds keep a relation have related results**, or none at all with the same fuel. -/
theorem iterate_rel {s : σ} {t : τ} {f : σ → Option (Round σ α)} {g : τ → Option (Round τ β)}
    (h : ∀ s t, R s t → Option.Rel (RoundRel R P) (f s) (g t)) (fuel : Nat) (hst : R s t) :
    Option.Rel P (iterate f fuel s) (iterate g fuel t) := by
  induction fuel generalizing s t with
  | zero => exact .none
  | succ fuel ih =>
    have hround := h s t hst
    unfold iterate
    generalize f s = x, g t = y at hround
    cases hround with
    | none => exact .none
    | some hxy =>
      cases hxy with
      | again hnext => exact ih hnext
      | done hab => exact .some hab

end

/-! ## 2. Calls and answers -/

/-- What is asked of a simulator. -/
inductive Call where
  | load (word : Word)
  | step
  | run (word : Word)

/-- What it answers. -/
inductive Answer where
  | loaded (result : Except RunError Unit)
  | stepped (progress : Progress)
  | ran (result : Except RunError Outcome)
  deriving DecidableEq

/-- What each call answers in a state, and the state that it leaves behind.  A run has no answer if the
fuel is used up. -/
structure Simulator (σ : Type) where
  load : Word → σ → Except RunError Unit × σ
  step : σ → Progress × σ
  run : (fuel : Nat) → Word → σ → Option (Except RunError Outcome × σ)

namespace Simulator

variable {σ : Type}

/-- One call. -/
def call? (S : Simulator σ) (fuel : Nat) (s : σ) : Call → Option (Answer × σ)
  | .load word => some ((S.load word s).map .loaded id)
  | .step => some ((S.step s).map .stepped id)
  | .run word => (S.run fuel word s).map (·.map .ran id)

/-- A history: the answers to all calls, and the state that the last of them leaves behind. -/
def calls? (S : Simulator σ) (fuel : Nat) : List Call → σ → Option (List Answer × σ)
  | [], s => some ([], s)
  | call :: calls, s =>
    (S.call? fuel s call).bind fun (answer, s) =>
      (S.calls? fuel calls s).map (·.map (answer :: ·) id)

/-- The machine on its tape. -/
def arrays (a : Automaton) (limit : Option Nat) : Simulator Configuration where
  load := Configuration.load a
  step := Configuration.step a
  run := Configuration.run a limit

/-! ## 3. Runs as sequences of steps -/

section

variable (load : Word → σ → Except RunError Unit × σ) (step : σ → Progress × σ) (steps : σ → Nat)
  (outcome : σ → Outcome) (limit : Option Nat)

/-- One round of a run: a step, and a look at the limit. -/
def runRound (s : σ) : Round σ (Except RunError Outcome × σ) :=
  match step s with
  | (.halted, s) => .done (.ok (outcome s), s)
  | (.moved, s) =>
    match limit.filter (· < steps s) with
    | some limit => .done (.error (.stepLimit limit), s)
    | none => .again s

/-- The simulator that runs a word by loading it and making steps, until it halts or has made more than
the limit allows. -/
def ofSteps : Simulator σ where
  load := load
  step := step
  run fuel word s :=
    match load word s with
    | (.error error, s) => some (.error error, s)
    | (.ok (), s) => iterate (fun s => some (runRound step steps outcome limit s)) fuel s

end

theorem runRound_eq (a : Automaton) (limit : Option Nat) : Configuration.runRound a limit =
    runRound (Configuration.step a) Configuration.steps (Configuration.outcome a) limit := by
  funext c
  unfold Configuration.runRound runRound
  obtain ⟨progress, c'⟩ := c.step a
  cases progress <;> rfl

/-- The machine on its tape runs a word by loading it and making steps. -/
theorem arrays_eq_ofSteps (a : Automaton) (limit : Option Nat) : arrays a limit =
    ofSteps (Configuration.load a) (Configuration.step a) Configuration.steps
      (Configuration.outcome a) limit := by
  unfold arrays ofSteps
  congr 1
  funext fuel word c
  unfold Configuration.run Configuration.toHalt
  rw [runRound_eq]
  obtain ⟨result, c'⟩ := c.load a word
  cases result <;> rfl

/-! ## 4. Simulators that agree -/

/-- The same answer, and related states. -/
def Alike {σ τ α : Type} (R : σ → τ → Prop) (out : α × σ) (out' : α × τ) : Prop :=
  out.1 = out'.1 ∧ R out.2 out'.2

variable {σ τ α β : Type} {R : σ → τ → Prop} {s : σ} {t : τ}

theorem Alike.map {out : α × σ} {out' : α × τ} (h : Alike R out out') (f : α → β) :
    Alike R (out.map f id) (out'.map f id) := ⟨congrArg f h.1, h.2⟩

/-- From related states, each call gives the same answer and leads to related states. -/
structure Agree (R : σ → τ → Prop) (S : Simulator σ) (T : Simulator τ) : Prop where
  load : ∀ word s t, R s t → Alike R (S.load word s) (T.load word t)
  step : ∀ s t, R s t → Alike R (S.step s) (T.step t)
  run : ∀ fuel word s t, R s t → Option.Rel (Alike R) (S.run fuel word s) (T.run fuel word t)

section

variable {load : Word → σ → Except RunError Unit × σ} {step : σ → Progress × σ} {steps : σ → Nat}
  {outcome : σ → Outcome} {load' : Word → τ → Except RunError Unit × τ} {step' : τ → Progress × τ}
  {steps' : τ → Nat} {outcome' : τ → Outcome} (limit : Option Nat)
  (hstep : ∀ s t, R s t → Alike R (step s) (step' t)) (hsteps : ∀ s t, R s t → steps s = steps' t)
  (houtcome : ∀ s t, R s t → outcome s = outcome' t)

include hstep hsteps houtcome

/-- Related states look at the limit alike. -/
theorem runRound_rel (hst : R s t) : RoundRel R (Alike R) (runRound step steps outcome limit s)
    (runRound step' steps' outcome' limit t) := by
  obtain ⟨hprogress, hnext⟩ := hstep s t hst
  unfold runRound
  generalize step s = out, step' t = out' at hprogress hnext
  obtain ⟨progress, s₁⟩ := out
  obtain ⟨progress', t₁⟩ := out'
  obtain rfl : progress = progress' := hprogress
  cases progress with
  | halted => exact .done ⟨congrArg Except.ok (houtcome _ _ hnext), hnext⟩
  | moved =>
    simp only [hsteps _ _ hnext]
    cases limit.filter (· < steps' t₁) with
    | none => exact .again hnext
    | some k => exact .done ⟨rfl, hnext⟩

/-- **Simulators that agree on loading and on steps agree on runs.** -/
theorem agree_ofSteps (hload : ∀ word s t, R s t → Alike R (load word s) (load' word t)) :
    Agree R (ofSteps load step steps outcome limit) (ofSteps load' step' steps' outcome' limit) := by
  refine ⟨hload, hstep, fun fuel word s t hst => ?_⟩
  obtain ⟨hresult, hloaded⟩ := hload word s t hst
  unfold ofSteps
  simp only
  generalize load word s = out, load' word t = out' at hresult hloaded
  obtain ⟨result, s₁⟩ := out
  obtain ⟨result', t₁⟩ := out'
  obtain rfl : result = result' := hresult
  cases result with
  | error error => exact .some ⟨rfl, hloaded⟩
  | ok _ =>
    exact iterate_rel (fun s t hst => .some (runRound_rel limit hstep hsteps houtcome hst)) fuel hloaded

end

namespace Agree

variable {S : Simulator σ} {T : Simulator τ}

/-- Agreement on one call. -/
theorem call? (h : Agree R S T) (fuel : Nat) (hst : R s t) (call : Call) :
    Option.Rel (Alike R) (S.call? fuel s call) (T.call? fuel t call) := by
  cases call with
  | load word => exact .some ((h.load word s t hst).map _)
  | step => exact .some ((h.step s t hst).map _)
  | run word => exact rel_map (h.run fuel word s t hst) fun _ _ hout => hout.map _

/-- **Simulators that agree have the same history.** -/
theorem calls? (h : Agree R S T) (fuel : Nat) (calls : List Call) (hst : R s t) :
    Option.Rel (Alike R) (S.calls? fuel calls s) (T.calls? fuel calls t) := by
  induction calls generalizing s t with
  | nil => exact .some ⟨rfl, hst⟩
  | cons call calls ih =>
    refine rel_bind (h.call? fuel hst call) fun out out' hout => ?_
    refine rel_map (ih hout.2) fun rest rest' hrest => ?_
    exact ⟨congrArg₂ List.cons hout.1 hrest.1, hrest.2⟩

end Agree

end Simulator

end TapeGrammar
