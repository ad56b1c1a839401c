import TapeGrammar.Proofs.Rewriting

/-!
# Reading a word off a form

Every symbol of a configuration stands for the letter that it was generated from, and recovery turns
it into that letter.  A READING says for each symbol which letter it stands for; what a form SPELLS
are the letters of its symbols in order.  A derivation whose productions spell the same on both sides
keeps what the form spells, whatever it does (`Reading.spelled_of_derives`).
-/

namespace TapeGrammar

/-- The letters that symbols stand for.  A terminal stands for itself. -/
structure Reading where
  letter? : Symbol → Option String
  terminal (letter : String) : letter? (.terminal letter) = some letter

namespace Reading

variable (r : Reading) {form form' : Form}

/-- The letters that a form stands for. -/
def spelled (form : Form) : Word := form.filterMap r.letter?

@[simp] theorem spelled_nil : r.spelled [] = [] := rfl

@[simp] theorem spelled_append (form form' : Form) :
    r.spelled (form ++ form') = r.spelled form ++ r.spelled form' :=
  List.filterMap_append

theorem spelled_cons (s : Symbol) (form : Form) :
    r.spelled (s :: form) = (r.letter? s).toList ++ r.spelled form := by
  unfold spelled
  cases h : r.letter? s with
  | none => rw [List.filterMap_cons_none h, Option.toList_none, List.nil_append]
  | some letter => rw [List.filterMap_cons_some h, Option.toList_some, List.singleton_append]

/-- Readings by which all symbols stand for the same letters spell the same. -/
theorem spelled_congr {r r' : Reading} (h : ∀ s, r.letter? s = r'.letter? s) (form : Form) :
    r.spelled form = r'.spelled form := by
  unfold spelled
  rw [funext h]

/-- A word spells itself. -/
@[simp] theorem spelled_terminals (word : Word) : r.spelled (word.map .terminal) = word := by
  induction word with
  | nil => rfl
  | cons letter word ih =>
    rw [List.map_cons, spelled_cons, ih, r.terminal]
    rfl

/-- A form whose symbols all stand for a letter spells these letters. -/
theorem spelled_of_map {word : Word} (h : form.map r.letter? = word.map some) :
    r.spelled form = word := by
  have hread : (form.map r.letter?).filterMap id = word := by
    rw [h, List.filterMap_map]
    exact List.filterMap_some
  rwa [List.filterMap_map] at hread

/-- A form of letters is made of the letters that it spells. -/
theorem eq_of_isTerminal (h : form.isTerminal = true) :
    form = (r.spelled form).map .terminal := by
  induction form with
  | nil => rfl
  | cons s form ih =>
    simp only [Form.isTerminal, List.all_cons, Bool.and_eq_true] at h
    cases s with
    | terminal letter =>
      rw [spelled_cons, List.map_append, ← ih h.2, r.terminal]
      rfl
    | nonTerminal labels => cases h.1

/-- The letters of a form of letters are those that it spells. -/
theorem letters_of_isTerminal (h : form.isTerminal = true) : form.letters = r.spelled form := by
  generalize hword : r.spelled form = word
  rw [r.eq_of_isTerminal h, hword]
  simp [Form.letters, Symbol.letter?, List.filterMap_map, Function.comp_def]

/-- **What a form spells is kept** by productions that spell the same on both sides. -/
theorem spelled_of_derives {allowed : Production → Prop}
    (hallowed : ∀ p, allowed p → r.spelled p.left = r.spelled p.right)
    (h : Derives allowed form form') : r.spelled form = r.spelled form' := by
  induction h with
  | refl => rfl
  | tail _ hstep ih =>
    obtain ⟨before, behind, p, hp⟩ := hstep
    rw [ih]
    simp only [spelled_append, hallowed p hp]

/-- **A production that does not touch the end of a form** changes the body in front of it, and keeps
what the body spells. -/
theorem exists_rewritten {P : Symbol → Prop} {p : Production} {body tail before behind : Form}
    (hne : p.left ≠ []) (hleft : ∀ s ∈ p.left, ¬ P s) (hright : ∀ s ∈ p.right, ¬ P s)
    (hspelled : r.spelled p.left = r.spelled p.right) (hbody : ∀ s ∈ body, ¬ P s)
    (htail : ∀ s ∈ tail, P s) (h : body ++ tail = before ++ p.left ++ behind) :
    ∃ body', before ++ p.right ++ behind = body' ++ tail ∧ (∀ s ∈ body', ¬ P s) ∧
      r.spelled body' = r.spelled body := by
  obtain ⟨behind, rfl, rfl⟩ := Form.body_of_occurs hne hleft htail h
  refine ⟨before ++ p.right ++ behind, by simp, ?_, ?_⟩
  · intro s hs
    rcases List.mem_append.mp hs with hs | hs
    · rcases List.mem_append.mp hs with hs | hs
      · exact hbody s (by simp [hs])
      · exact hright s hs
    · exact hbody s (by simp [hs])
  · simp only [spelled_append, hspelled]

end Reading

end TapeGrammar
