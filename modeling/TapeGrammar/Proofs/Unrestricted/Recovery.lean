import TapeGrammar.Proofs.Scan
import TapeGrammar.Proofs.Unrestricted.Encoding

/-!
# Recovery in an unrestricted grammar

A final token spreads over the row.  The scan to the right leaves a stretch of PASSED symbols behind
it, letters and copies of the token, and so does the scan to the left; in the end only passed
symbols are left, and the copies of the token vanish (`recoverWord_encode`).

Every production is applied at the position where the scan is, although always the leftmost
occurrence is replaced: before the token there are no tokens, and among the passed symbols there are
no cells.
-/

namespace TapeGrammar.Unrestricted

open TapeGrammar.Derivation (Scan Treats recoverRight recoverLeft removeRound removeTokens recoverWord)

variable {a : Automaton} {blank : String} {q origin x : String} {t : TracedForm}

/-! ## 1. What is looked up -/

/-- A cell that the tables know. -/
def IsCell (a : Automaton) (s : Symbol) : Prop :=
  ∃ origin ∈ origins a, ∃ x ∈ a.tapeAlphabet, s = cell origin x

/-- A symbol that a token has passed: a letter, or a copy of the token. -/
def IsPassed (q : String) (s : Symbol) : Prop := s = token q ∨ ∃ letter, s = .terminal letter

theorem not_isPassed_cell : ¬ IsPassed q (cell origin x) := by
  rintro (h | ⟨letter, h⟩)
  · exact cell_ne_token h
  · simp [cell] at h

theorem token_not_mem_cells {cells : Form} (h : ∀ s ∈ cells, IsCell a s) : token q ∉ cells := by
  intro hmem
  obtain ⟨origin, -, x, -, heq⟩ := h _ hmem
  exact token_ne_cell heq

theorem cell_not_mem_passed {form : Form} (h : ∀ s ∈ form, IsPassed q s) :
    cell origin x ∉ form := fun hmem => not_isPassed_cell (h _ hmem)

section Lookup

variable (hb : a.boundary = .blank blank) (hq : a.isFinal q = true)

include hb

/-- A letter before a token stays. -/
theorem first?_letter (letter : String) :
    (Grammar.ofAutomaton a).recovery.first? [.terminal letter, token q] = none := by
  refine Productions.first?_eq_none fun right hmem => ?_
  obtain ⟨q', -, h⟩ := mem_recovery_iff.mp ((mem_recovery hb).mp hmem)
  rcases h with h | ⟨origin, -, x, -, h | h⟩
  · cases h
  · simp [cell] at h
  · simp [token] at h

include hq

theorem first?_token :
    (Grammar.ofAutomaton a).recovery.first? [token q] = some [] := by
  refine Productions.first?_eq_some ?_ ?_
  · rw [mem_recovery hb]
    exact mem_recovery_iff.mpr ⟨q, hq, Or.inl rfl⟩
  · intro right hmem
    obtain ⟨q', -, h⟩ := mem_recovery_iff.mp ((mem_recovery hb).mp hmem)
    rcases h with h | ⟨origin, -, x, -, h | h⟩
    · cases h
      rfl
    · cases h
    · cases h

theorem first?_token_cell (horigin : origin ∈ origins a) (hx : x ∈ a.tapeAlphabet) :
    (Grammar.ofAutomaton a).recovery.first? [token q, cell origin x] = some (passed q origin) := by
  refine Productions.first?_eq_some ?_ ?_
  · rw [mem_recovery hb]
    exact mem_recovery_iff.mpr ⟨q, hq, Or.inr ⟨origin, horigin, x, hx, Or.inr rfl⟩⟩
  · intro right hmem
    obtain ⟨q', -, h⟩ := mem_recovery_iff.mp ((mem_recovery hb).mp hmem)
    rcases h with h | ⟨origin', -, x', -, h | h⟩
    · cases h
    · simp at h
    · simp only [Production.mk.injEq, List.cons.injEq, token_inj, cell_inj, and_true] at h
      rw [h.2, h.1.1, h.1.2.1]

theorem first?_cell_token (horigin : origin ∈ origins a) (hx : x ∈ a.tapeAlphabet) :
    (Grammar.ofAutomaton a).recovery.first? [cell origin x, token q] = some (passed q origin) := by
  refine Productions.first?_eq_some ?_ ?_
  · rw [mem_recovery hb]
    exact mem_recovery_iff.mpr ⟨q, hq, Or.inr ⟨origin, horigin, x, hx, Or.inl rfl⟩⟩
  · intro right hmem
    obtain ⟨q', -, h⟩ := mem_recovery_iff.mp ((mem_recovery hb).mp hmem)
    rcases h with h | ⟨origin', -, x', -, h | h⟩
    · cases h
    · simp only [Production.mk.injEq, List.cons.injEq, token_inj, cell_inj, and_true] at h
      rw [h.2, h.1.2, h.1.1.1]
    · simp at h

end Lookup

/-! ## 2. The scans -/

/-- What is left of a cell is passed, and there is a token at its beginning and at its end. -/
theorem passed_eq (q origin : String) :
    ∃ mid, passed q origin = token q :: mid ++ [token q] ∧
      ∀ s ∈ mid, ∃ letter, s = .terminal letter := by
  unfold passed
  split
  · exact ⟨[], rfl, by simp⟩
  · exact ⟨[.terminal origin], rfl, by simp⟩

/-- **Where the scan to the right is**, after the cells `before`: on the last token of the stretch that
it has passed, with cells behind it, or on the letter before that token.  The stretch begins with a
token. -/
inductive Spreads (a : Automaton) (q : String) (before : Form) (i : Nat) (form : Form) : Prop where
  | onToken (mid cells : Form) (hform : form = before ++ mid ++ [token q] ++ cells)
    (hi : i = (before ++ mid).length) (hfirst : [token q] <+: mid ++ [token q])
    (hmid : ∀ s ∈ mid, IsPassed q s) (hcells : ∀ s ∈ cells, IsCell a s)
  | onLetter (mid cells : Form) (letter : String)
    (hform : form = before ++ mid ++ [.terminal letter, token q] ++ cells)
    (hi : i = (before ++ mid).length) (hfirst : [token q] <+: mid) (hmid : ∀ s ∈ mid, IsPassed q s)
    (hcells : ∀ s ∈ cells, IsCell a s)

/-- **Where the scan to the left is**: behind the cells that are left, and before a stretch that it or
the scan to the right has passed. -/
inductive Returns (a : Automaton) (q : String) (i : Nat) (form : Form) : Prop where
  | beforeToken (cells rest : Form) (hform : form = cells ++ token q :: rest) (hi : i = cells.length)
    (hcells : ∀ s ∈ cells, IsCell a s) (hrest : ∀ s ∈ rest, IsPassed q s)

/-- The scan to the right begins on the token. -/
theorem spreads_first {before behind form : Form} (hform : form = before ++ token q :: behind)
    (hbehind : ∀ s ∈ behind, IsCell a s) : Spreads a q before before.length form :=
  .onToken [] behind (by rw [hform]; simp) (by simp) (by simp) (by simp) hbehind

theorem isPassed_concat {mid : Form} {last : Symbol} (hmid : ∀ s ∈ mid, IsPassed q s)
    (hlast : IsPassed q last) : ∀ s ∈ mid ++ [last], IsPassed q s :=
  List.forall_mem_append.mpr ⟨hmid, List.forall_mem_singleton.mpr hlast⟩

section Scans

variable (hb : a.boundary = .blank blank) (hq : a.isFinal q = true) {before form : Form} {i : Nat}

include hb hq

/-- **A step of the scan to the right**: the token passes the cell behind it, or the scan goes on from a
letter to the token. -/
theorem Spreads.treats (hbefore : token q ∉ before) (h : Spreads a q before i form)
    (hlt : i + 1 < form.length) :
    Treats (Grammar.ofAutomaton a) i form (Spreads a q before (i + 1)) := by
  cases h with
  | onToken mid cells hform hi hfirst hmid hcells =>
    cases cells with
    | nil =>
      rw [hform, hi] at hlt
      simp only [List.length_append, List.length_singleton, List.length_nil] at hlt
      omega
    | cons s cells =>
      obtain ⟨⟨origin, horigin, x, hx, rfl⟩, hcells'⟩ := List.forall_mem_cons.mp hcells
      have hpassed := isPassed_concat hmid (Or.inl rfl : IsPassed q (token q))
      refine .replaced (before ++ mid) cells (passed q origin) (token q) (cell origin x)
        (by rw [hform]; simp) hi (first?_token_cell hb hq horigin hx)
        (Form.leftmost_pair hbefore (cell_not_mem_passed hpassed)) ?_
      have hnext : i + 1 = (before ++ (mid ++ [token q])).length := by
        rw [hi]
        simp only [List.length_append, List.length_singleton]
        omega
      unfold passed
      split
      · -- a padding cell: the next token is at the next position
        exact .onToken (mid ++ [token q]) cells (by simp) hnext
          (hfirst.trans (List.prefix_append _ _)) hpassed hcells'
      · -- a letter comes before the next token
        exact .onLetter (mid ++ [token q]) cells origin (by simp) hnext hfirst hpassed hcells'
  | onLetter mid cells letter hform hi hfirst hmid hcells =>
    refine .stays (before ++ mid) cells (.terminal letter) (token q) hform hi (first?_letter hb letter)
      ?_
    refine .onToken (mid ++ [.terminal letter]) cells (by rw [hform]; simp) ?_
      (hfirst.trans (by simp)) (isPassed_concat hmid (Or.inr ⟨letter, rfl⟩)) hcells
    rw [hi]
    simp only [List.length_append, List.length_singleton]
    omega

/-- **A step of the scan to the left**: the token passes the cell before it. -/
theorem Returns.treats (h : Returns a q (i + 1) form) :
    Treats (Grammar.ofAutomaton a) i form (Returns a q i) := by
  obtain ⟨cells, rest, hform, hi, hcells, hrest⟩ := h
  rcases List.eq_nil_or_concat cells with rfl | ⟨cells, s, rfl⟩
  · cases hi
  · rw [List.concat_eq_append] at hform hi hcells
    obtain ⟨hcells', hs⟩ := List.forall_mem_append.mp hcells
    obtain ⟨origin, horigin, x, hx, rfl⟩ := List.forall_mem_singleton.mp hs
    obtain ⟨mid, hpassed, hmid⟩ := passed_eq q origin
    refine .replaced cells rest (passed q origin) (cell origin x) (token q) (by rw [hform]; simp)
      (by simpa using hi) (first?_cell_token hb hq horigin hx)
      (Form.leftmost_pair List.not_mem_nil (token_not_mem_cells (a := a) hcells)) ?_
    refine .beforeToken cells (mid ++ [token q] ++ rest) (by rw [hpassed]; simp) (by simpa using hi)
      hcells' ?_
    exact List.forall_mem_append.mpr
      ⟨isPassed_concat (fun s hs => Or.inr (hmid s hs)) (Or.inl rfl), hrest⟩

/-- **The two scans over a row with a final token in it.** -/
theorem scan (hbefore : ∀ s ∈ before, IsCell a s) :
    Scan (Grammar.ofAutomaton a) before.length (Spreads a q before) (Returns a q) where
  right_step h hlt := h.treats hb hq (token_not_mem_cells hbefore) hlt
  left_step h := h.treats hb hq
  turn {i form} h hle := by
    cases h with
    | onToken mid cells hform hi hfirst hmid hcells =>
      obtain rfl : cells = [] := by
        refine List.eq_nil_iff_length_eq_zero.mpr ?_
        rw [hform, hi] at hle
        simp only [List.length_append, List.length_singleton] at hle
        omega
      obtain ⟨rest, hrest⟩ := hfirst
      have hpassed := isPassed_concat hmid (Or.inl rfl : IsPassed q (token q))
      rw [← hrest] at hpassed
      refine .beforeToken before rest ?_ rfl hbefore (List.forall_mem_append.mp hpassed).2
      rw [hform, List.append_nil, List.append_assoc, ← hrest, List.singleton_append]
    | onLetter mid cells letter hform hi hfirst hmid hcells =>
      rw [hform, hi] at hle
      simp only [List.length_append, List.length_cons] at hle
      omega

end Scans

/-! ## 3. Copies of the token -/

/-- All copies of the token vanish, and letters are left. -/
theorem remove_all {n : Nat} (hpassed : ∀ s ∈ t.form, IsPassed q s)
    (hn : t.form.count (token q) = n) (count : Nat) :
    ∃ fuel t', iterate (fun state => some (removeRound [token q] [] state)) fuel (count, t) =
      some (.ok (count + n, t')) ∧ t'.form.isTerminal = true := by
  induction n generalizing t count with
  | zero =>
    have hnone : token q ∉ t.form := List.count_eq_zero.mp hn
    have habsent : t.apply [token q] [] = .absent := by
      refine TracedForm.apply_of_not_occurs (fun before behind h => hnone ?_) []
      rw [h]
      simp
    refine ⟨1, t, iterate_succ_of_done ?_, ?_⟩
    · simp only [removeRound, habsent, Nat.add_zero]
    · refine List.all_eq_true.mpr fun s hs => ?_
      rcases hpassed s hs with rfl | ⟨letter, rfl⟩
      · exact absurd hs hnone
      · rfl
  | succ n ih =>
    have hmem : token q ∈ t.form := List.count_pos_iff.mp (by omega)
    obtain ⟨before, behind, hform, hbefore⟩ := List.eq_append_cons_of_mem hmem
    have happly := TracedForm.apply_of_not_mem
      (by rw [hform]; simp : t.form = before ++ [token q] ++ behind) hbefore []
    obtain ⟨fuel, t', hrun, hterminal⟩ := ih
      (t := ⟨before ++ [] ++ behind, t.trace.push ⟨[token q], []⟩⟩)
      (fun s hs => hpassed s (by rw [hform]; simp at hs ⊢; tauto))
      (by rw [hform] at hn; simp at hn ⊢; omega) (count + 1)
    refine ⟨fuel + 1, t', ?_, hterminal⟩
    have hround : removeRound [token q] [] (count, t) =
        .again (count + 1, ⟨before ++ [] ++ behind, t.trace.push ⟨[token q], []⟩⟩) := by
      simp only [removeRound, happly]
    rw [iterate_succ_of_again (congrArg some hround), hrun]
    congr 3
    omega

/-! ## 4. The whole configuration -/

variable {word : Word} {first last : Int} {c : Configuration} {d : Derivation}

/-- The cells of a row are known to the tables. -/
theorem isCell_row (hword : ∀ letter ∈ word, letter ∈ a.inputs) (h : Within a word first last c)
    (start : Int) (length : Nat) : ∀ s ∈ row (cellAt a word c) start length, IsCell a s := by
  intro s hs
  obtain ⟨i, -, -, rfl⟩ := mem_row hs
  exact ⟨_, originAt_mem hword i, _, h.symbol_mem i, rfl⟩

/-- The three parts of the recovery, one after the other. -/
theorem recoverWord_of_parts (hb : a.boundary = .blank blank) (hq : a.isFinal q = true)
    {t₁ t₂ t₃ : TracedForm} {fuel fuel' count : Nat}
    (hright : recoverRight (Grammar.ofAutomaton a) fuel d.cursor d.traced = some (.ok t₁))
    (hleft : recoverLeft (Grammar.ofAutomaton a) d.cursor t₁ = .ok t₂)
    (hremove : iterate (fun state => some (removeRound [token q] [] state)) fuel' (0, t₂) =
      some (.ok (count, t₃))) (hcount : count ≠ 0) :
    recoverWord (Grammar.ofAutomaton a) (max fuel fuel') q d = some (.ok t₃) := by
  have hbegun : Derivation.recoverState (Grammar.ofAutomaton a) d = .ok d.traced := by
    simp only [Derivation.recoverState, kind_eq hb]
  have hright' : recoverRight (Grammar.ofAutomaton a) (max fuel fuel') d.cursor d.traced =
      some (.ok t₁) := iterate_of_le (Nat.le_max_left _ _) hright
  have hremove' : removeTokens (Grammar.ofAutomaton a) (max fuel fuel') q t₂ =
      some (.ok (count, t₃)) := by
    have hfirst : (Grammar.ofAutomaton a).recovery.first? [.nonTerminal [q]] = some [] :=
      first?_token hb hq
    simp only [removeTokens, hfirst]
    exact iterate_of_le (Nat.le_max_right _ _) hremove
  simp only [recoverWord, hbegun, hright', hleft, hremove']
  rw [if_neg fun h => hcount h.2]

/-- **A row of cells with a final token in it is recovered.**  Only letters are left. -/
theorem recoverWord_cells (hb : a.boundary = .blank blank) (hq : a.isFinal q = true)
    {before behind : Form} (hbefore : ∀ s ∈ before, IsCell a s) (hbehind : ∀ s ∈ behind, IsCell a s)
    (hform : d.form = before ++ token q :: behind) (hcursor : d.cursor = before.length) :
    ∃ fuel t, recoverWord (Grammar.ofAutomaton a) fuel q d = some (.ok t) ∧
      t.form.isTerminal = true := by
  have hscan := scan hb hq hbefore
  have hbegin : Spreads a q before before.length d.traced.form := spreads_first hform hbehind
  obtain ⟨fuel, t₁, hright, hreturn⟩ := hscan.recoverRight_ends (recovers_ofAutomaton a) hbegin
  obtain ⟨t₂, hleft, hend⟩ := hscan.recoverLeft_ends hreturn
  rw [← hcursor] at hright hleft
  obtain ⟨cells, rest', hform₂, hcells, -, hrest'⟩ := hend
  obtain rfl : cells = [] := List.eq_nil_iff_length_eq_zero.mpr hcells.symm
  have hpassed : ∀ s ∈ t₂.form, IsPassed q s := by
    rw [hform₂]
    exact List.forall_mem_cons.mpr ⟨Or.inl rfl, hrest'⟩
  obtain ⟨fuel', t₃, hremove, hterminal⟩ := remove_all hpassed rfl 0
  refine ⟨max fuel fuel', t₃, recoverWord_of_parts hb hq hright hleft hremove ?_, hterminal⟩
  rw [hform₂]
  simp

/-- **A final configuration is recovered.**  Only letters are left. -/
theorem recoverWord_encode (hb : a.boundary = .blank blank)
    (hword : ∀ letter ∈ word, letter ∈ a.inputs) (h : Within a word first last c)
    (hq : a.isFinal c.state = true) (hform : d.form = encode a word first last c)
    (hcursor : d.cursor = (c.head - first).toNat) :
    ∃ fuel t, recoverWord (Grammar.ofAutomaton a) fuel c.state d = some (.ok t) ∧
      t.form.isTerminal = true :=
  recoverWord_cells hb hq (isCell_row hword h _ _) (isCell_row hword h _ _) hform
    (by rw [length_row, hcursor])

end TapeGrammar.Unrestricted
