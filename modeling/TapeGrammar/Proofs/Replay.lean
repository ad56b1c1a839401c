import TapeGrammar.Proofs.Rewriting

/-!
# Replaying productions

A trace can be checked without knowing how it came about: apply its productions one after the other
to the form that the derivation began with (`TracedForm.replay`).  The replay fails where a
production does not apply, and otherwise ends in the form that the derivation has reached.

`Replays` says this of a stretch of a derivation, together with the table that its productions are
from.  It is stronger than `Derives`, which allows any occurrence: a replay replaces leftmost
occurrences only, so that its end is determined by its productions.
-/

namespace TapeGrammar

namespace TracedForm

/-- Applies productions one after the other.  `none` if one of them does not apply. -/
def replay : List Production → TracedForm → Option TracedForm
  | [], t => some t
  | p :: productions, t =>
    match t.apply p.left p.right with
    | .applied next => replay productions next
    | _ => none

variable {t t' : TracedForm} {p : Production} {productions : List Production} {left right : Form}

/-- A production that is applied is written down. -/
theorem trace_of_apply (h : t.apply left right = .applied t') :
    t'.trace = t.trace.push ⟨left, right⟩ := by
  unfold apply at h
  split at h
  · cases h
  · unfold Production.make at h
    split at h
    · rename_i production hmake
      split at hmake
      · cases hmake
        cases h
        rfl
      · cases hmake
    · cases h

theorem replay_cons_of_apply (h : t.apply p.left p.right = .applied t') :
    replay (p :: productions) t = replay productions t' := by
  simp only [replay, h]

/-- A replay of two rows of productions is a replay of the one and then of the other. -/
theorem replay_append (productions productions' : List Production) (t : TracedForm) :
    replay (productions ++ productions') t = (replay productions t).bind (replay productions') := by
  induction productions generalizing t with
  | nil => rfl
  | cons p productions ih =>
    rw [List.cons_append, replay, replay]
    split
    · exact ih _
    · rfl

/-- **A replay writes down the productions that it is given.** -/
theorem steps_of_replay (h : replay productions t = some t') :
    t'.trace.steps = t.trace.steps ++ productions := by
  induction productions generalizing t with
  | nil =>
    cases h
    exact (List.append_nil _).symm
  | cons p productions ih =>
    unfold replay at h
    split at h
    · rename_i next happly
      rw [ih h, trace_of_apply happly, Trace.steps_push, List.append_assoc, List.singleton_append]
    · cases h

end TracedForm

/-- Productions that are all allowed lead from one form to another. -/
structure Replays (allowed : Production → Prop) (t : TracedForm) (productions : List Production)
    (t' : TracedForm) : Prop where
  allowed_of_mem : ∀ p ∈ productions, allowed p
  replay_eq : TracedForm.replay productions t = some t'

namespace Replays

variable {allowed : Production → Prop} {t t' t'' : TracedForm}
  {productions productions' : List Production} {left right : Form}

theorem refl (t : TracedForm) : Replays allowed t [] t :=
  ⟨fun _ hp => absurd hp List.not_mem_nil, rfl⟩

/-- A production that is applied. -/
theorem single (hallowed : allowed ⟨left, right⟩) (h : t.apply left right = .applied t') :
    Replays allowed t [⟨left, right⟩] t' :=
  ⟨List.forall_mem_singleton.mpr hallowed, TracedForm.replay_cons_of_apply h⟩

/-- One stretch after the other. -/
theorem append (h : Replays allowed t productions t') (h' : Replays allowed t' productions' t'') :
    Replays allowed t (productions ++ productions') t'' := by
  refine ⟨fun p hp => ?_, ?_⟩
  · rcases List.mem_append.mp hp with hp | hp
    · exact h.allowed_of_mem p hp
    · exact h'.allowed_of_mem p hp
  · rw [TracedForm.replay_append, h.replay_eq, Option.bind_some, h'.replay_eq]

/-- The trace becomes longer by the stretch. -/
theorem steps_eq (h : Replays allowed t productions t') :
    t'.trace.steps = t.trace.steps ++ productions :=
  TracedForm.steps_of_replay h.replay_eq

/-- **What is replayed is derived.** -/
theorem derives (h : Replays allowed t productions t') : Derives allowed t.form t'.form := by
  obtain ⟨hallowed, hreplay⟩ := h
  induction productions generalizing t with
  | nil =>
    cases hreplay
    exact .refl
  | cons p productions ih =>
    unfold TracedForm.replay at hreplay
    split at hreplay
    · rename_i next happly
      obtain ⟨hp, hrest⟩ := List.forall_mem_cons.mp hallowed
      exact .head (TracedForm.rewrites_of_apply hp happly) (ih hrest hreplay)
    · cases hreplay

end Replays

end TapeGrammar
