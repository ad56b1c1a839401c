import Mathlib.Data.List.Forall2
import TapeGrammar.Descriptor.Sections

/-!
# What readers find

A reader is handed an offset, the characters from there on and the attempts made so far, but what it
finds depends on the characters alone.  Two predicates say what that is, whatever the rest: a reader
READS a stretch at the front of the characters, or MISSES what it looks for.  They exclude each
other, and for every way of putting readers together there is a rule for either of them.

A repetition ends where its reader misses, so its rule is stated with the turns that it takes: the
predicate `Repeats` lists them.
-/

namespace TapeGrammar.Descriptor

namespace Reader

variable {α β γ : Type} {reader : Reader α} {next : α → Reader β} {P P' : α → Prop} {Q : β → Prop}
  {cs mid rest text : List Char} {value : α} {part : Part} {p : Char → Bool}

/-! ## 1. Reading and missing -/

/-- At `cs` the reader finds something with the property `P`, and the text goes on with `rest`. -/
def Reads (reader : Reader α) (cs : List Char) (P : α → Prop) (rest : List Char) : Prop :=
  ∀ offset attempts, ∃ value offset' attempts',
    reader ⟨offset, cs⟩ attempts = (some (value, ⟨offset', rest⟩), attempts') ∧ P value

/-- At `cs` the reader finds nothing. -/
def Misses (reader : Reader α) (cs : List Char) : Prop :=
  ∀ offset attempts, ∃ attempts', reader ⟨offset, cs⟩ attempts = (none, attempts')

theorem Reads.mono (h : Reads reader cs P rest) (hP : ∀ value, P value → P' value) :
    Reads reader cs P' rest := by
  intro offset attempts
  obtain ⟨value, offset', attempts', hrun, hvalue⟩ := h offset attempts
  exact ⟨value, offset', attempts', hrun, hP value hvalue⟩

/-! ## 2. One reader after another -/

theorem reads_pure (h : P value) : Reads (pure value) cs P cs :=
  fun offset attempts => ⟨value, offset, attempts, rfl, h⟩

theorem misses_fail : Misses (fail : Reader α) cs :=
  fun _ attempts => ⟨attempts, rfl⟩

theorem Reads.bind (h : Reads reader cs P mid)
    (hnext : ∀ value, P value → Reads (next value) mid Q rest) :
    Reads (reader >>= next) cs Q rest := by
  intro offset attempts
  obtain ⟨value, offset', attempts', hrun, hvalue⟩ := h offset attempts
  obtain ⟨result, offset'', attempts'', hrun', hresult⟩ := hnext value hvalue offset' attempts'
  refine ⟨result, offset'', attempts'', ?_, hresult⟩
  show Reader.bind reader next _ _ = _
  rw [Reader.bind, hrun]
  exact hrun'

theorem Reads.bind_misses (h : Reads reader cs P mid)
    (hnext : ∀ value, P value → Misses (next value) mid) : Misses (reader >>= next) cs := by
  intro offset attempts
  obtain ⟨value, offset', attempts', hrun, hvalue⟩ := h offset attempts
  obtain ⟨attempts'', hrun'⟩ := hnext value hvalue offset' attempts'
  refine ⟨attempts'', ?_⟩
  show Reader.bind reader next _ _ = _
  rw [Reader.bind, hrun]
  exact hrun'

theorem Misses.bind (h : Misses reader cs) : Misses (reader >>= next) cs := by
  intro offset attempts
  obtain ⟨attempts', hrun⟩ := h offset attempts
  refine ⟨attempts', ?_⟩
  show Reader.bind reader next _ _ = _
  rw [Reader.bind, hrun]

theorem bind_assoc (reader : Reader α) (next : α → Reader β) (last : β → Reader γ) :
    Reader.bind (Reader.bind reader next) last =
      Reader.bind reader fun value => Reader.bind (next value) last := by
  funext place attempts
  simp only [Reader.bind]
  rcases reader place attempts with ⟨_ | ⟨value, after⟩, attempts'⟩ <;> rfl

theorem bind_pure (reader : Reader α) : Reader.bind reader Reader.pure = reader := by
  funext place attempts
  simp only [Reader.bind]
  split <;> rename_i h <;> rw [h]
  rfl

/-- How readers that follow one another are grouped makes no difference. -/
instance : LawfulMonad Reader :=
  LawfulMonad.mk' Reader bind_pure (fun _ _ => rfl) bind_assoc

/-! ## 3. Optional, named and located parts -/

theorem Reads.optional (h : Reads reader cs P rest) :
    Reads (optional reader) cs (fun found => ∃ value, found = some value ∧ P value) rest := by
  intro offset attempts
  obtain ⟨value, offset', attempts', hrun, hvalue⟩ := h offset attempts
  exact ⟨some value, offset', attempts', by rw [Reader.optional, hrun], value, rfl, hvalue⟩

theorem Misses.optional (h : Misses reader cs) : Reads (optional reader) cs (· = none) cs := by
  intro offset attempts
  obtain ⟨attempts', hrun⟩ := h offset attempts
  exact ⟨none, offset, attempts', by rw [Reader.optional, hrun], rfl⟩

theorem Reads.named (h : Reads reader cs P rest) : Reads (named part reader) cs P rest := by
  intro offset attempts
  obtain ⟨value, offset', attempts', hrun, hvalue⟩ := h offset attempts
  exact ⟨value, offset', attempts', by rw [Reader.named, hrun], hvalue⟩

theorem Misses.named (h : Misses reader cs) : Misses (named part reader) cs := by
  intro offset attempts
  obtain ⟨attempts', hrun⟩ := h offset attempts
  exact ⟨_, by rw [Reader.named, hrun]⟩

theorem Reads.located (h : Reads reader cs P rest) :
    Reads (located reader) cs (fun found => P found.value) rest := by
  intro offset attempts
  obtain ⟨value, offset', attempts', hrun, hvalue⟩ := h offset attempts
  exact ⟨⟨value, offset, offset' - offset⟩, offset', attempts',
    by rw [Reader.located, hrun], hvalue⟩

theorem Misses.located (h : Misses reader cs) : Misses (located reader) cs := by
  intro offset attempts
  obtain ⟨attempts', hrun⟩ := h offset attempts
  exact ⟨attempts', by rw [Reader.located, hrun]⟩

/-! ## 4. Repetitions -/

/-- At `cs` the reader can be repeated for as many turns as `items` has members, each of which finds
what `Finds` says of the member; then, at `rest`, it misses.  Every turn takes something. -/
inductive Repeats (reader : Reader α) (Finds : γ → α → Prop) :
    List Char → List γ → List Char → Prop
  | stop {cs : List Char} : Misses reader cs → Repeats reader Finds cs [] cs
  | turn {cs mid rest : List Char} {item : γ} {items : List γ} :
      Reads reader cs (Finds item) mid → mid.length < cs.length →
      Repeats reader Finds mid items rest → Repeats reader Finds cs (item :: items) rest

variable {Finds : γ → α → Prop} {items : List γ}

theorem Repeats.upTo (h : Repeats reader Finds cs items rest) {bound : Nat}
    (hbound : cs.length < bound) :
    Reads (upTo bound reader) cs (List.Forall₂ Finds items) rest := by
  induction h generalizing bound with
  | stop hmiss =>
    obtain ⟨bound, rfl⟩ := Nat.exists_eq_succ_of_ne_zero (Nat.ne_zero_of_lt hbound)
    intro offset attempts
    obtain ⟨attempts', hrun⟩ := hmiss offset attempts
    exact ⟨[], offset, attempts', by simp only [Reader.upTo, hrun], .nil⟩
  | turn hread hlt _ ih =>
    obtain ⟨bound, rfl⟩ := Nat.exists_eq_succ_of_ne_zero (Nat.ne_zero_of_lt hbound)
    intro offset attempts
    obtain ⟨value, offset', attempts', hrun, hvalue⟩ := hread offset attempts
    obtain ⟨values, offset'', attempts'', hrun', hvalues⟩ :=
      ih (show _ < bound by omega) offset' attempts'
    exact ⟨value :: values, offset'', attempts'', by simp only [Reader.upTo, hrun, hrun'],
      .cons hvalue hvalues⟩

/-- **A repetition takes exactly the turns that it can take.** -/
theorem Repeats.many (h : Repeats reader Finds cs items rest) :
    Reads (many reader) cs (List.Forall₂ Finds items) rest :=
  fun offset attempts => h.upTo (Nat.lt_succ_self _) offset attempts

/-! ## 5. Characters -/

theorem reads_takeWhile : Reads (takeWhile p) cs (· = cs.takeWhile p) (cs.dropWhile p) :=
  fun _ attempts => ⟨_, _, attempts, rfl, rfl⟩

theorem reads_literal : Reads (literal text) (text ++ rest) (fun _ => True) rest := by
  intro offset attempts
  refine ⟨(), offset + text.length, attempts, ?_, trivial⟩
  rw [Reader.literal, if_pos (by simp), List.drop_left]

theorem misses_literal (h : ¬ text <+: cs) : Misses (literal text) cs := by
  intro offset attempts
  exact ⟨attempts, by rw [Reader.literal, if_neg (by simpa using h)]⟩

theorem reads_endOfText : Reads endOfText [] (fun _ => True) [] :=
  fun offset attempts => ⟨(), offset, attempts, rfl, trivial⟩

theorem misses_endOfText (h : cs ≠ []) : Misses endOfText cs := by
  intro offset attempts
  exact ⟨attempts, by rw [Reader.endOfText, if_neg (by simpa using h)]⟩

end Reader

end TapeGrammar.Descriptor
