import TapeGrammar.Proofs.ContextSensitive.Productions
import TapeGrammar.Proofs.Faultless
import TapeGrammar.Proofs.Unrestricted.Productions
import TapeGrammar.Proofs.Weight

/-!
# What plans ask for

A plan is made from the word and the padding alone, without a look at the tables, and it asks for the
same productions whether the names of the automaton are told apart or not.  Each of them can be made
and replaces one symbol (`Grammar.legal_of_mem_plan`), so generation does not fault.

Nor does it matter which symbols a plan meets.  If it can be carried out at all, the form that it ends
with has a symbol for every cell and one more (`Unrestricted.length_of_ofWord`): a state by the name of
a helper may put the padding in the wrong place, but not change its amount.
-/

namespace TapeGrammar

/-! ## 1. Productions that can be made -/

/-- A letter, or a composite of as many labels as a composite may have. -/
def Symbol.Legal : Symbol → Prop
  | .terminal _ => True
  | .nonTerminal labels => Symbol.composite labels = .ok (.nonTerminal labels)

/-- The left side has the width of a left side, and every symbol can be made. -/
structure Production.Legal (p : Production) : Prop where
  width : p.HasWidth
  symbols : ∀ s ∈ p.left ++ p.right, s.Legal

/-- A step of a plan that replaces one symbol by a production that can be made. -/
structure PlanStep.Legal (step : PlanStep) : Prop where
  single : step.production.left.length = 1
  production : step.production.Legal

variable {a : Automaton} {g : Grammar} {s : Symbol} {right : Form} {word : Word} {padding : Padding}

theorem PlanStep.legal_repeated (hs : s.Legal) (hright : ∀ s ∈ right, s.Legal) (times : Nat) :
    (repeated s right times).Legal where
  single := rfl
  production :=
    { width := (by decide : 1 ≤ 1 ∧ 1 ≤ 3)
      symbols := List.forall_mem_append.mpr ⟨List.forall_mem_singleton.mpr hs, hright⟩ }

theorem PlanStep.legal_single (hs : s.Legal) (hright : ∀ s ∈ right, s.Legal) :
    (single s right).Legal := legal_repeated hs hright 1

theorem Symbol.legal_pair {s' : Symbol} (hs : s.Legal) (hs' : s'.Legal) :
    ∀ r ∈ [s, s'], r.Legal :=
  List.forall_mem_cons.mpr ⟨hs, List.forall_mem_singleton.mpr hs'⟩

/-- What the productions of a plan weigh, told from its steps. -/
theorem Plan.weigh_productions (weight : Production → Nat) (plan : Plan) :
    weigh weight plan.productions = weigh (fun step => step.times * weight step.production) plan := by
  induction plan with
  | nil => rfl
  | cons step plan ih =>
    rw [Plan.productions, List.flatMap_cons, weigh_append, weigh_replicate, weigh_cons, ← ih,
      Plan.productions]

/-! ## 2. Unrestricted plans -/

namespace Unrestricted

theorem legal_cell (origin x : String) : (cell origin x).Legal := rfl

theorem legal_token (q : String) : (token q).Legal := rfl

theorem legal_plan (state blank : String) (word : Word) (padding : Padding) :
    ∀ step ∈ plan state blank word padding, step.Legal := by
  have hpad : ∀ helper times,
      (PlanStep.repeated (token helper) [cell Symbol.epsilon blank, token helper] times).Legal :=
    fun helper times => PlanStep.legal_repeated (legal_token helper)
      (Symbol.legal_pair (legal_cell _ _) (legal_token helper)) times
  have hnext : ∀ helper next : String, (PlanStep.single (token helper) [token next]).Legal :=
    fun helper next => PlanStep.legal_single (legal_token helper)
      (List.forall_mem_singleton.mpr (legal_token next))
  intro step hstep
  simp only [plan, List.mem_append, List.mem_cons, List.mem_map, List.not_mem_nil, or_false]
    at hstep
  rcases hstep with ((rfl | rfl | rfl) | ⟨letter, -, rfl⟩) | rfl | rfl | rfl
  · exact hpad "A0" padding.left
  · exact hnext "A0" "A1"
  · exact PlanStep.legal_single (legal_token "A1")
      (Symbol.legal_pair (legal_token state) (legal_token "A2"))
  · exact PlanStep.legal_single (legal_token "A2")
      (Symbol.legal_pair (legal_cell letter letter) (legal_token "A2"))
  · exact hnext "A2" "A3"
  · exact hpad "A3" padding.right
  · exact PlanStep.legal_single (legal_token "A3") fun _ h => absurd h List.not_mem_nil

/-- **A plan that can be carried out makes a symbol for every cell and one more**, whatever it
replaces. -/
theorem length_of_ofWord {blank : String} (hb : a.boundary = .blank blank) {d : Derivation}
    (h : Derivation.ofWord (Grammar.ofAutomaton a) word padding = .ok d) :
    d.form.length = padding.left + word.length + padding.right + 1 := by
  obtain ⟨hreplays, -⟩ := Derivation.replays_of_ofWord h
  have hlengths := hreplays.weigh_eq fun _ => 1
  rw [plan_eq hb, Plan.weigh_productions, Plan.weigh_productions] at hlengths
  simp only [plan, PlanStep.single, PlanStep.repeated, TracedForm.ofForm, weigh_append, weigh_cons,
    weigh_nil, weigh_map, weigh_const, List.length_cons, List.length_nil] at hlengths
  rw [Derivation.form]
  omega

end Unrestricted

/-! ## 3. Context-sensitive plans -/

namespace ContextSensitive

theorem legal_planTail (right : String) (word : Word) :
    ∀ step ∈ planTail right word, step.Legal := by
  induction word with
  | nil => exact fun _ h => absurd h List.not_mem_nil
  | cons letter rest ih =>
    cases rest with
    | nil =>
      exact List.forall_mem_singleton.mpr
        (PlanStep.legal_single rfl (List.forall_mem_singleton.mpr rfl))
    | cons next rest =>
      exact List.forall_mem_cons.mpr
        ⟨PlanStep.legal_single rfl (Symbol.legal_pair rfl rfl), ih⟩

theorem legal_plan (state left right : String) (word : Word) :
    ∀ step ∈ plan state left right word, step.Legal := by
  match word with
  | [] => exact fun _ h => absurd h List.not_mem_nil
  | [letter] =>
    exact List.forall_mem_singleton.mpr
      (PlanStep.legal_single rfl (List.forall_mem_singleton.mpr rfl))
  | first :: next :: rest =>
    exact List.forall_mem_cons.mpr
      ⟨PlanStep.legal_single rfl (Symbol.legal_pair rfl rfl), legal_planTail right _⟩

end ContextSensitive

/-! ## 4. Plans of any automaton -/

/-- **Every production that a plan asks for can be made** and replaces one symbol. -/
theorem Grammar.legal_of_mem_plan (g : Grammar) (word : Word) (padding : Padding) :
    ∀ step ∈ g.plan word padding, step.Legal := by
  unfold Grammar.plan
  cases g.automaton.boundary with
  | blank blank => exact Unrestricted.legal_plan _ _ _ _
  | markers left right => exact ContextSensitive.legal_plan _ _ _ _

/-- **No generation faults.** -/
theorem Derivation.ofWord_faultless (g : Grammar) (word : Word) (padding : Padding) :
    Faultless (ofWord g word padding) := by
  have hplan := followPlan_faultless (g := g)
    (fun step hstep => (g.legal_of_mem_plan word padding step hstep).production.width.2)
    (initial g padding).traced
  simp only [ofWord]
  split
  · rename_i error herror
    rw [herror] at hplan
    exact hplan.error
  · exact faultless_ok _

end TapeGrammar
