import TapeGrammar.Proofs.Scan
import TapeGrammar.Proofs.ContextSensitive.Windowed

/-!
# Recovery in a context-sensitive grammar

The composite with the final state becomes its letter, and a letter turns the cells beside it into
letters: first those behind it, from left to right, then those before it, from right to left.

A recovery production is determined by its left side, because its right side is what the left side
spells (`right_of_mem_recovery`).  It is applied at the position where the scan is, although always
the leftmost occurrence is replaced: to the left of the scan there are no letters on the way forth,
and no letters before the scan on the way back.
-/

namespace TapeGrammar.ContextSensitive

open TapeGrammar.Derivation (Scan Treats recoverRight recoverLeft removeTokens recoverWord)

variable {a : Automaton} {left right q x letter b : String} {t : TracedForm} {p : Production}
  {v : Vocabulary}

/-! ## 1. What is looked up -/

/-- The right side of a recovery production is made of letters. -/
theorem isTerminal_right {finals : List String} (hp : p ∈ recovery finals v) :
    p.right.isTerminal = true := by
  obtain ⟨letter, -, x, -, hshape⟩ := mem_recovery_iff.mp hp
  rcases hshape with ⟨q, -, place, rfl⟩ | ⟨b, -, ⟨trail, rfl⟩ | ⟨lead, rfl⟩⟩
  · rfl
  · rfl
  · rfl

section Lookup

variable (ha : a.WellFormed) (hm : a.boundary = .markers left right)

include ha hm

/-- **The right side of a recovery production is what its left side spells.** -/
theorem right_of_mem_recovery
    (hp : p ∈ recovery a.finals.toList (.ofAutomaton a left right)) :
    p.right = ((reading a (.ofAutomaton a left right)).spelled p.left).map .terminal := by
  rw [spelled_recovery ha hm hp]
  exact Reading.eq_of_isTerminal _ (isTerminal_right hp)

/-- A recovery production is the first one for its left side. -/
theorem first?_of_mem (hp : p ∈ recovery a.finals.toList (.ofAutomaton a left right)) :
    (Grammar.ofAutomaton a).recovery.first? p.left = some p.right := by
  refine Productions.first?_eq_some ((mem_recovery hm).mpr hp) ?_
  intro new hnew
  rw [right_of_mem_recovery ha hm hp]
  exact right_of_mem_recovery ha hm ((mem_recovery hm).mp hnew)

theorem first?_carrying (hq : a.isFinal q = true) (place : Place) (hx : x ∈ a.cells)
    (hl : letter ∈ a.inputs) :
    (Grammar.ofAutomaton a).recovery.first?
      [carrying (.ofAutomaton a left right) place q x letter] = some [.terminal letter] := by
  have hfinal : q ∈ a.finals.toList :=
    Std.ExtTreeSet.mem_toList.mpr (Std.ExtTreeSet.mem_iff_contains.mpr hq)
  exact first?_of_mem ha hm (p := ⟨[_], [.terminal letter]⟩)
    (mem_recovery_iff.mpr ⟨letter, hl, x, hx, Or.inl ⟨q, hfinal, place, rfl⟩⟩)

theorem first?_letter_plain (trail : Bool) (hx : x ∈ a.cells) (hl : letter ∈ a.inputs)
    (hb : b ∈ a.inputs) :
    (Grammar.ofAutomaton a).recovery.first?
      [.terminal letter, plain (.ofAutomaton a left right) false trail x b] =
        some [.terminal letter, .terminal b] :=
  first?_of_mem ha hm (p := ⟨[_, _], [.terminal letter, .terminal b]⟩)
    (mem_recovery_iff.mpr ⟨letter, hl, x, hx, Or.inr ⟨b, hb, Or.inl ⟨trail, rfl⟩⟩⟩)

theorem first?_plain_letter (lead : Bool) (hx : x ∈ a.cells) (hl : letter ∈ a.inputs)
    (hb : b ∈ a.inputs) :
    (Grammar.ofAutomaton a).recovery.first?
      [plain (.ofAutomaton a left right) lead false x letter, .terminal b] =
        some [.terminal letter, .terminal b] :=
  first?_of_mem ha hm (p := ⟨[_, _], [.terminal letter, .terminal b]⟩)
    (mem_recovery_iff.mpr ⟨letter, hl, x, hx, Or.inr ⟨b, hb, Or.inr ⟨lead, rfl⟩⟩⟩)

omit ha in
/-- There are no tokens to remove. -/
theorem first?_token (state : String) :
    (Grammar.ofAutomaton a).recovery.first? [.nonTerminal [state]] = none := by
  refine Productions.first?_eq_none fun new hnew => ?_
  obtain ⟨letter, -, x, -, hshape⟩ := mem_recovery_iff.mp ((mem_recovery hm).mp hnew)
  rcases hshape with ⟨q, -, place, h⟩ | ⟨b, -, ⟨trail, h⟩ | ⟨lead, h⟩⟩
  · have hleft := List.singleton_inj.mp (congrArg Production.left h)
    exact carrying_ne_single place state hleft.symm
  · have hlength := congrArg (fun p => p.left.length) h
    simp at hlength
  · have hlength := congrArg (fun p => p.left.length) h
    simp at hlength

end Lookup

/-! ## 2. The scans -/

/-- A cell behind the first one. -/
def IsLater (v : Vocabulary) (s : Symbol) : Prop :=
  ∃ trail, ∃ x ∈ v.cells, ∃ b ∈ v.inputs, s = plain v false trail x b

/-- A cell before the last one. -/
def IsEarlier (v : Vocabulary) (s : Symbol) : Prop :=
  ∃ lead, ∃ x ∈ v.cells, ∃ b ∈ v.inputs, s = plain v lead false x b

/-- A letter of the alphabet. -/
def IsLetter (v : Vocabulary) (s : Symbol) : Prop := ∃ letter ∈ v.inputs, s = .terminal letter

theorem terminal_not_mem_earlier {cells : Form} (h : ∀ s ∈ cells, IsEarlier v s) :
    Symbol.terminal letter ∉ cells := by
  intro hmem
  obtain ⟨lead, x, -, b, -, heq⟩ := h _ hmem
  exact terminal_ne_plain lead false heq

theorem carrying_not_mem_earlier (hv : Clear a v) {cells : Form} {place : Place}
    (hq : a.isState q = true) (h : ∀ s ∈ cells, IsEarlier v s) :
    carrying v place q x letter ∉ cells := by
  intro hmem
  obtain ⟨lead, z, hz, b, hb, heq⟩ := h _ hmem
  refine hv.not_carries_plain hz (hv.input_mem_cells b hb) lead false ?_
  rw [← heq]
  exact carries_carrying hq

theorem plain_not_mem_letters {form : Form} {lead trail : Bool} (h : ∀ s ∈ form, IsLetter v s) :
    plain v lead trail x letter ∉ form := by
  intro hmem
  obtain ⟨b, -, heq⟩ := h _ hmem
  exact terminal_ne_plain lead trail heq.symm

/-- **Where the scan to the right is**, after the cells `before`: on the last of the letters that it has
made, with cells behind it. -/
inductive Spreads (v : Vocabulary) (before : Form) (i : Nat) (form : Form) : Prop where
  | onLetter (mid cells : Form) (letter : String)
    (hform : form = before ++ mid ++ [.terminal letter] ++ cells) (hi : i = (before ++ mid).length)
    (hletter : letter ∈ v.inputs) (hmid : ∀ s ∈ mid, IsLetter v s) (hcells : ∀ s ∈ cells, IsLater v s)

/-- **Where the scan to the left is**: behind the cells that are left, and before the letters. -/
inductive Returns (v : Vocabulary) (i : Nat) (form : Form) : Prop where
  | beforeLetter (cells rest : Form) (letter : String)
    (hform : form = cells ++ .terminal letter :: rest) (hi : i = cells.length)
    (hletter : letter ∈ v.inputs) (hcells : ∀ s ∈ cells, IsEarlier v s)
    (hrest : ∀ s ∈ rest, IsLetter v s)

/-- The scan to the right begins on the letter that the composite with the state has become. -/
theorem spreads_first {before behind : Form} (hletter : letter ∈ v.inputs)
    (hbehind : ∀ s ∈ behind, IsLater v s) :
    Spreads v before before.length (before ++ [.terminal letter] ++ behind) :=
  .onLetter [] behind letter (by simp) (by simp) hletter (by simp) hbehind

theorem isLetter_concat {mid : Form} (hmid : ∀ s ∈ mid, IsLetter v s) (hletter : letter ∈ v.inputs) :
    ∀ s ∈ mid ++ [.terminal letter], IsLetter v s :=
  List.forall_mem_append.mpr ⟨hmid, List.forall_mem_singleton.mpr ⟨letter, hletter, rfl⟩⟩

section Scans

variable (ha : a.WellFormed) (hm : a.boundary = .markers left right) {before form : Form} {i : Nat}

include ha hm

/-- **A step of the scan to the right**: the cell behind the letter becomes a letter. -/
theorem Spreads.treats (hbefore : ∀ s ∈ before, IsEarlier (.ofAutomaton a left right) s)
    (h : Spreads (.ofAutomaton a left right) before i form) (hlt : i + 1 < form.length) :
    Treats (Grammar.ofAutomaton a) i form (Spreads (.ofAutomaton a left right) before (i + 1)) := by
  obtain ⟨mid, cells, letter, hform, hi, hletter, hmid, hcells⟩ := h
  cases cells with
  | nil =>
    rw [hform, hi] at hlt
    simp only [List.length_append, List.length_singleton, List.length_nil] at hlt
    omega
  | cons s cells =>
    obtain ⟨⟨trail, x, hx, b, hb, rfl⟩, hcells'⟩ := List.forall_mem_cons.mp hcells
    have hletters := isLetter_concat hmid hletter
    refine .replaced (before ++ mid) cells [.terminal letter, .terminal b] (.terminal letter) _
      (by rw [hform]; simp) hi (first?_letter_plain ha hm trail hx hletter hb)
      (Form.leftmost_pair (terminal_not_mem_earlier hbefore) (plain_not_mem_letters hletters)) ?_
    refine .onLetter (mid ++ [.terminal letter]) cells b (by simp) ?_ hb hletters hcells'
    rw [hi]
    simp only [List.length_append, List.length_singleton]
    omega

/-- **A step of the scan to the left**: the cell before the letter becomes a letter. -/
theorem Returns.treats (h : Returns (.ofAutomaton a left right) (i + 1) form) :
    Treats (Grammar.ofAutomaton a) i form (Returns (.ofAutomaton a left right) i) := by
  obtain ⟨cells, rest, letter, hform, hi, hletter, hcells, hrest⟩ := h
  rcases List.eq_nil_or_concat cells with rfl | ⟨cells, s, rfl⟩
  · cases hi
  · rw [List.concat_eq_append] at hform hi hcells
    obtain ⟨hcells', hs⟩ := List.forall_mem_append.mp hcells
    obtain ⟨lead, x, hx, b, hb, rfl⟩ := List.forall_mem_singleton.mp hs
    refine .replaced cells rest [.terminal b, .terminal letter] _ (.terminal letter)
      (by rw [hform]; simp) (by simpa using hi) (first?_plain_letter ha hm lead hx hb hletter)
      (Form.leftmost_pair List.not_mem_nil (terminal_not_mem_earlier hcells)) ?_
    exact .beforeLetter cells (.terminal letter :: rest) b (by simp) (by simpa using hi) hb hcells'
      (List.forall_mem_cons.mpr ⟨⟨letter, hletter, rfl⟩, hrest⟩)

/-- **The two scans over a row with a letter in it.** -/
theorem scan (hbefore : ∀ s ∈ before, IsEarlier (.ofAutomaton a left right) s) :
    Scan (Grammar.ofAutomaton a) before.length (Spreads (.ofAutomaton a left right) before)
      (Returns (.ofAutomaton a left right)) where
  right_step h hlt := h.treats ha hm hbefore hlt
  left_step h := h.treats ha hm
  turn {i form} h hle := by
    obtain ⟨mid, cells, letter, hform, hi, hletter, hmid, hcells⟩ := h
    obtain rfl : cells = [] := by
      refine List.eq_nil_iff_length_eq_zero.mpr ?_
      rw [hform, hi] at hle
      simp only [List.length_append, List.length_singleton] at hle
      omega
    cases mid with
    | nil => exact .beforeLetter before [] letter (by rw [hform]; simp) rfl hletter hbefore (by simp)
    | cons s mid =>
      obtain ⟨⟨b, hb, rfl⟩, hmid'⟩ := List.forall_mem_cons.mp hmid
      exact .beforeLetter before (mid ++ [.terminal letter]) b (by rw [hform]; simp) rfl hb hbefore
        (isLetter_concat hmid' hletter)

end Scans

/-! ## 3. The whole configuration -/

variable {d : Derivation} {before behind : Form}

/-- The composite with the state becomes a letter. -/
theorem recoverState_of_first? (hm : a.boundary = .markers left right) {s : Symbol}
    (hform : d.form = before ++ [s] ++ behind) (hcursor : d.cursor = before.length)
    (hfirst : (Grammar.ofAutomaton a).recovery.first? [s] = some [.terminal letter])
    (hs : s ∉ before) :
    Derivation.recoverState (Grammar.ofAutomaton a) d =
      .ok ⟨before ++ [.terminal letter] ++ behind, d.trace.push ⟨[s], [.terminal letter]⟩⟩ := by
  have happly := TracedForm.apply_of_not_mem hform hs [.terminal letter]
  have hanchor : d.form[d.cursor]?.toList = [s] := by
    rw [hform, hcursor]
    simp
  simp only [Derivation.recoverState, kind_eq hm, hanchor, hfirst, happly, Derivation.trace]

/-- The parts of the recovery, one after the other. -/
theorem recoverWord_of_parts (hm : a.boundary = .markers left right) {t₁ t₂ t₃ : TracedForm}
    {fuel : Nat} (state : String)
    (hstate : Derivation.recoverState (Grammar.ofAutomaton a) d = .ok t₁)
    (hright : recoverRight (Grammar.ofAutomaton a) fuel d.cursor t₁ = some (.ok t₂))
    (hleft : recoverLeft (Grammar.ofAutomaton a) d.cursor t₂ = .ok t₃) :
    recoverWord (Grammar.ofAutomaton a) fuel state d = some (.ok t₃) := by
  have hremove : removeTokens (Grammar.ofAutomaton a) fuel state t₃ = some (.ok (0, t₃)) := by
    simp only [removeTokens, first?_token hm]
  simp only [recoverWord, hstate, hright, hleft, hremove, kind_eq hm]
  rw [if_neg fun h => absurd h.1 (by decide)]

/-- **A row of cells around a final state is recovered.**  Only letters are left. -/
theorem recoverWord_cells (ha : a.WellFormed) (hm : a.boundary = .markers left right)
    (hbefore : ∀ s ∈ before, IsEarlier (.ofAutomaton a left right) s)
    (hbehind : ∀ s ∈ behind, IsLater (.ofAutomaton a left right) s) (hq : a.isFinal q = true)
    {place : Place} (hx : x ∈ a.cells) (hl : letter ∈ a.inputs)
    (hform : d.form =
      before ++ [carrying (.ofAutomaton a left right) place q x letter] ++ behind)
    (hcursor : d.cursor = before.length) (state : String) :
    ∃ fuel t, recoverWord (Grammar.ofAutomaton a) fuel state d = some (.ok t) ∧
      t.form.isTerminal = true := by
  have hv := clear_ofAutomaton ha hm
  have hstate := recoverState_of_first? hm hform hcursor (first?_carrying ha hm hq place hx hl)
    (carrying_not_mem_earlier hv (Automaton.isState_of_isFinal hq) hbefore)
  have hscan := scan ha hm hbefore
  obtain ⟨fuel, t₂, hright, hreturn⟩ := hscan.recoverRight_ends (recovers_ofAutomaton a)
    (t := ⟨_, d.trace.push _⟩) (spreads_first hl hbehind)
  obtain ⟨t₃, hleft, hend⟩ := hscan.recoverLeft_ends hreturn
  rw [← hcursor] at hright hleft
  refine ⟨fuel, t₃, recoverWord_of_parts hm state hstate hright hleft, ?_⟩
  obtain ⟨cells, rest, b, hform₃, hcells, -, -, hrest⟩ := hend
  obtain rfl : cells = [] := List.eq_nil_iff_length_eq_zero.mpr hcells.symm
  rw [hform₃]
  refine List.all_eq_true.mpr (List.forall_mem_cons.mpr ⟨rfl, fun s hs => ?_⟩)
  obtain ⟨letter, -, rfl⟩ := hrest s hs
  rfl

variable {word : Word} {c : Configuration}

/-- The composites before the anchor are cells before the last one. -/
theorem isEarlier_row (hletters : ∀ letter ∈ word, letter ∈ v.inputs) (hne : word ≠ [])
    (h : Fenced a v word c) :
    ∀ s ∈ row (symbolAt a v word c) 1 (anchor word c - 1).toNat, IsEarlier v s := by
  intro s hs
  have hhigh := (anchor_bounds hne c).2
  obtain ⟨i, hi, hi', rfl⟩ := mem_row hs
  refine ⟨decide (i = 1), c.symbol a i, h.symbol_mem i (by omega) (by omega), letterAt word i,
    letterAt_mem hletters (by omega) (by omega), ?_⟩
  rw [symbolAt_of_ne (by omega) (by omega) (by omega),
    decide_eq_false (by omega : ¬ i = word.length)]

/-- The composites behind the anchor are cells behind the first one. -/
theorem isLater_row (hletters : ∀ letter ∈ word, letter ∈ v.inputs) (hne : word ≠ [])
    (h : Fenced a v word c) :
    ∀ s ∈ row (symbolAt a v word c) (anchor word c + 1)
      (word.length + 1 - (anchor word c + 1)).toNat, IsLater v s := by
  intro s hs
  have hlow := (anchor_bounds hne c).1
  obtain ⟨i, hi, hi', rfl⟩ := mem_row hs
  refine ⟨decide (i = word.length), c.symbol a i, h.symbol_mem i (by omega) (by omega),
    letterAt word i, letterAt_mem hletters (by omega) (by omega), ?_⟩
  rw [symbolAt_of_ne (by omega) (by omega) (by omega), decide_eq_false (by omega : ¬ i = 1)]

/-- **A final configuration is recovered.**  Only letters are left. -/
theorem recoverWord_encode (ha : a.WellFormed) (hm : a.boundary = .markers left right)
    (hword : a.Takes word) (h : Fenced a (.ofAutomaton a left right) word c)
    (hq : a.isFinal c.state = true)
    (hform : d.form = encode a (.ofAutomaton a left right) word word.length c)
    (hcursor : d.cursor = (anchor word c - 1).toNat) :
    ∃ fuel t, recoverWord (Grammar.ofAutomaton a) fuel c.state d = some (.ok t) ∧
      t.form.isTerminal = true := by
  have hinputs : ∀ letter ∈ word, letter ∈ (Vocabulary.ofAutomaton a left right).inputs := hword.2
  obtain ⟨hlow, hhigh⟩ := anchor_bounds hword.1 c
  rw [encode_eq_around_anchor hword.1 h hhigh, List.append_cons] at hform
  exact recoverWord_cells ha hm (isEarlier_row hinputs hword.1 h) (isLater_row hinputs hword.1 h)
    hq (h.symbol_mem _ hlow hhigh) (letterAt_mem hinputs hlow hhigh) hform
    (by rw [length_row, hcursor]) c.state

end TapeGrammar.ContextSensitive
