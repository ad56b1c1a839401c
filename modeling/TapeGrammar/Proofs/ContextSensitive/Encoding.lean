import TapeGrammar.Proofs.ContextSensitive.Productions
import TapeGrammar.Proofs.Row
import TapeGrammar.Proofs.Run

/-!
# Bounded configurations as forms

The form has one composite for each letter of the word, and so for each cell between the markers.
The composite of the cell under the head carries the state; if the head is on a marker it is the
composite of the cell beside it.  The position of that composite is the ANCHOR of the configuration.

Only the first composites of an encoding need to be there.  In a derivation that is not a check the
machine may move while the rest of them is still to be generated.
-/

namespace TapeGrammar.ContextSensitive

variable {a : Automaton} {left right : String} {v : Vocabulary} {word : Word} {c : Configuration}
  {move : Move} {p : Production} {i : Int}

/-! ## 1. Encodings -/

/-- The letter that the cell at a position was generated from. -/
def letterAt (word : Word) (i : Int) : String := (word[(i - 1).toNat]?).getD ""

/-- The place of the state in the composite at a position, if the state is in it: on the cell itself,
on the left marker beside the first cell, or on the right marker beside the last one. -/
def place? (length : Nat) (head i : Int) : Option Place :=
  if head = i then some (.onCell (decide (i = 1)) (decide (i = length)))
  else if head = 0 ∧ i = 1 then some (.onLeft (decide (i = length)))
  else if head = length + 1 ∧ i = length then some (.onRight (decide (i = 1)))
  else none

/-- **The composite at a position**: the tape symbol, the letter, the markers on the first and on the
last cell, and the state in its place. -/
def symbolAt (a : Automaton) (v : Vocabulary) (word : Word) (c : Configuration) (i : Int) : Symbol :=
  match place? word.length c.head i with
  | some place => carrying v place c.state (c.symbol a i) (letterAt word i)
  | none =>
    plain v (decide (i = 1)) (decide (i = word.length)) (c.symbol a i) (letterAt word i)

/-- **The encoding of a configuration** by its first `m` composites. -/
def encode (a : Automaton) (v : Vocabulary) (word : Word) (m : Nat) (c : Configuration) : Form :=
  row (symbolAt a v word c) 1 m

/-- The configuration has the markers at both ends and cells between them, and the head is not beyond
the markers. -/
structure Fenced (a : Automaton) (v : Vocabulary) (word : Word) (c : Configuration) : Prop where
  isState : a.isState c.state = true
  head_nonneg : 0 ≤ c.head
  head_le : c.head ≤ word.length + 1
  size_eq : c.tape.right.size = word.length + 2
  symbol_left : c.symbol a 0 = v.left
  symbol_right : c.symbol a (word.length + 1) = v.right
  symbol_mem : ∀ i : Int, 1 ≤ i → i ≤ word.length → c.symbol a i ∈ v.cells

theorem letterAt_mem (hword : ∀ letter ∈ word, letter ∈ v.inputs) (h : 1 ≤ i)
    (h' : i ≤ word.length) : letterAt word i ∈ v.inputs := by
  have hlt : (i - 1).toNat < word.length := by omega
  unfold letterAt
  rw [List.getElem?_eq_getElem hlt, Option.getD_some]
  exact hword _ (List.getElem_mem hlt)

/-- The symbols on the tape at the beginning. -/
theorem symbol_ofWord (hm : a.boundary = .markers left right) (i : Nat) :
    (Configuration.ofWord a word).symbol a i = ((left :: word ++ [right])[i]?).getD "" := by
  rw [Configuration.symbol_eq]
  simp [Configuration.ofWord, hm, Automaton.blank?, Tape.ofList, Tape.get?]

theorem symbol_ofWord_cell (hm : a.boundary = .markers left right) (h : 1 ≤ i)
    (h' : i ≤ word.length) : (Configuration.ofWord a word).symbol a i = letterAt word i := by
  obtain ⟨n, rfl⟩ : ∃ n : Nat, i = ((n + 1 : Nat) : Int) := ⟨(i - 1).toNat, by omega⟩
  have hn : (((n + 1 : Nat) : Int) - 1).toNat = n := by omega
  rw [symbol_ofWord hm, List.cons_append, List.getElem?_cons_succ,
    List.getElem?_append_left (by omega), letterAt, hn]

/-- **The beginning of a run is fenced.** -/
theorem fenced_ofWord (ha : a.WellFormed) (hm : a.boundary = .markers left right)
    (hword : ∀ letter ∈ word, letter ∈ a.inputs) :
    Fenced a (.ofAutomaton a left right) word (.ofWord a word) := by
  have hv := clear_ofAutomaton ha hm
  refine ⟨?_, by simp, by simp; omega, ?_, ?_, ?_, ?_⟩
  · rw [Configuration.state_ofWord]
    exact Automaton.isState_start
  · simp [Configuration.ofWord, hm, Tape.ofList]
  · exact symbol_ofWord hm 0
  · have h : ((left :: word ++ [right])[word.length + 1]?).getD "" = right := by simp
    exact (symbol_ofWord hm (word.length + 1)).trans h
  · intro i hi hi'
    rw [symbol_ofWord_cell hm hi hi']
    exact hv.input_mem_cells _ (letterAt_mem hword hi hi')

/-- The cells of a fenced configuration are there, from marker to marker. -/
theorem Fenced.cell?_eq (h : Fenced a v word c) (hi : 0 ≤ i) (hi' : i ≤ word.length + 1) :
    c.cell? a i = some (c.symbol a i) := by
  obtain ⟨n, rfl⟩ : ∃ n : Nat, i = n := ⟨i.toNat, by omega⟩
  have hlt : n < c.tape.right.size := by
    rw [h.size_eq]
    omega
  have hget : c.tape.get? n = some c.tape.right[n] := Array.getElem?_eq_getElem hlt
  unfold Configuration.symbol Configuration.cell?
  rw [hget]
  rfl

/-- A fenced configuration reads a symbol. -/
theorem Fenced.pending?_eq (h : Fenced a v word c) :
    c.pending? a = a.move? c.state (c.symbol a c.head) := by
  rw [Configuration.pending?, Configuration.read?, h.cell?_eq h.head_nonneg h.head_le, Option.bind_some]

/-- **What a move does at a fence.**  On a marker the head turns back and the marker stays, and on a
cell a symbol of a cell is written. -/
theorem Fenced.move_cases (ha : a.WellFormed) (hm : a.boundary = .markers left right)
    (h : Fenced a (.ofAutomaton a left right) word c) (hmove : c.pending? a = some move) :
    (c.head = 0 ∧ move.direction = .right ∧ move.write = left) ∨
      (c.head = word.length + 1 ∧ move.direction = .left ∧ move.write = right) ∨
      (1 ≤ c.head ∧ c.head ≤ word.length ∧ c.symbol a c.head ∈ a.cells ∧ move.write ∈ a.cells) := by
  have hv := clear_ofAutomaton ha hm
  have hnonneg := h.head_nonneg
  have hle := h.head_le
  rw [h.pending?_eq] at hmove
  have hcases := ha.move_cases hm hmove
  by_cases hzero : c.head = 0
  · have hleft : c.symbol a c.head = left := by
      rw [hzero]
      exact h.symbol_left
    rcases hcases with ⟨-, hwrite, hdir⟩ | ⟨hright, -⟩ | ⟨hcell, -⟩
    · exact Or.inl ⟨hzero, hdir, hwrite⟩
    · exact absurd (hleft.symm.trans hright) hv.markers_ne
    · exact absurd hleft (hv.cell_ne_markers _ hcell).1
  · by_cases hlast : c.head = word.length + 1
    · have hright : c.symbol a c.head = right := by
        rw [hlast]
        exact h.symbol_right
      rcases hcases with ⟨hleft, -⟩ | ⟨-, hwrite, hdir⟩ | ⟨hcell, -⟩
      · exact absurd (hleft.symm.trans hright) hv.markers_ne
      · exact Or.inr (Or.inl ⟨hlast, hdir, hwrite⟩)
      · exact absurd hright (hv.cell_ne_markers _ hcell).2
    · have hcell := h.symbol_mem c.head (by omega) (by omega)
      rcases hcases with ⟨hleft, -⟩ | ⟨hright, -⟩ | ⟨-, hwrite⟩
      · exact absurd hleft (hv.cell_ne_markers _ hcell).1
      · exact absurd hright (hv.cell_ne_markers _ hcell).2
      · exact Or.inr (Or.inr ⟨by omega, by omega, hcell, hwrite⟩)

/-- A move at a fence writes to a cell that is there. -/
theorem Fenced.size_apply (h : Fenced a v word c) (move : Move) :
    (c.apply a move).tape.right.size = c.tape.right.size ∧
      (c.apply a move).tape.left = c.tape.left := by
  have hnonneg := h.head_nonneg
  have hle := h.head_le
  obtain ⟨n, hn⟩ : ∃ n : Nat, c.head = n := ⟨c.head.toNat, by omega⟩
  have hlt : n < c.tape.right.size := by
    rw [h.size_eq]
    omega
  show (c.tape.write (a.blank?.getD "") c.head move.write).right.size = _ ∧
    (c.tape.write (a.blank?.getD "") c.head move.write).left = _
  rw [hn]
  exact Tape.size_write hlt _ _

/-- **Moves keep a configuration fenced.** -/
theorem Fenced.apply (ha : a.WellFormed) (hm : a.boundary = .markers left right)
    (h : Fenced a (.ofAutomaton a left right) word c) (hmove : c.pending? a = some move) :
    Fenced a (.ofAutomaton a left right) word (c.apply a move) := by
  have hnonneg := h.head_nonneg
  have hle := h.head_le
  have hcases := h.move_cases ha hm hmove
  have hhead := Configuration.head_apply_bounds a c move
  rw [h.pending?_eq] at hmove
  refine ⟨Automaton.isState_next hmove, ?_, ?_, ?_, ?_, ?_, ?_⟩
  · rcases hcases with ⟨hzero, hdir, -⟩ | ⟨hlast, -⟩ | ⟨hpos, -⟩
    · rw [Configuration.head_apply_right hdir]
      omega
    · omega
    · omega
  · rcases hcases with ⟨hzero, -⟩ | ⟨hlast, hdir, -⟩ | ⟨-, hle', -⟩
    · omega
    · rw [Configuration.head_apply_left hdir]
      omega
    · omega
  · rw [(h.size_apply move).1, h.size_eq]
  · rw [Configuration.symbol_apply]
    split
    · rename_i hzero
      rcases hcases with ⟨-, -, hwrite⟩ | ⟨hlast, -⟩ | ⟨hpos, -⟩
      · exact hwrite
      · omega
      · omega
    · exact h.symbol_left
  · rw [Configuration.symbol_apply]
    split
    · rename_i hlast
      rcases hcases with ⟨hzero, -⟩ | ⟨-, -, hwrite⟩ | ⟨-, hle', -⟩
      · omega
      · exact hwrite
      · omega
    · exact h.symbol_right
  · intro i hi hi'
    rw [Configuration.symbol_apply]
    split
    · rename_i heq
      rcases hcases with ⟨hzero, -⟩ | ⟨hlast, -⟩ | ⟨-, -, -, hwrite⟩
      · omega
      · omega
      · exact hwrite
    · exact h.symbol_mem i hi hi'

/-! ## 2. The anchor -/

/-- The position of the composite that carries the state. -/
def anchor (word : Word) (c : Configuration) : Int := max 1 (min c.head word.length)

theorem anchor_bounds (hne : word ≠ []) (c : Configuration) :
    1 ≤ anchor word c ∧ anchor word c ≤ word.length := by
  have hlength : 0 < word.length := List.length_pos_iff.mpr hne
  unfold anchor
  omega

/-- The anchor of a head on a cell is the cell. -/
theorem anchor_of_cell (h : 1 ≤ c.head) (h' : c.head ≤ word.length) : anchor word c = c.head := by
  unfold anchor
  omega

/-- Away from the anchor there is no state. -/
theorem symbolAt_of_ne (hi : 1 ≤ i) (hi' : i ≤ word.length) (h : i ≠ anchor word c) :
    symbolAt a v word c i =
      plain v (decide (i = 1)) (decide (i = word.length)) (c.symbol a i) (letterAt word i) := by
  have hnone : place? word.length c.head i = none := by
    unfold anchor at h
    unfold place?
    rw [if_neg (by omega), if_neg (by omega), if_neg (by omega)]
  unfold symbolAt
  rw [hnone]

/-- The place of the state at the anchor. -/
def headPlace (word : Word) (c : Configuration) : Place :=
  if c.head = 0 then .onLeft (decide ((1 : Int) = word.length))
  else if c.head = word.length + 1 then .onRight (decide ((word.length : Int) = 1))
  else .onCell (decide (c.head = 1)) (decide (c.head = word.length))

theorem headPlace_onLeft (h : c.head = 0) :
    headPlace word c = .onLeft (decide ((1 : Int) = word.length)) := if_pos h

theorem headPlace_onRight (h : c.head = word.length + 1) :
    headPlace word c = .onRight (decide ((word.length : Int) = 1)) := by
  rw [headPlace, if_neg (by omega), if_pos h]

theorem headPlace_onCell (h : 1 ≤ c.head) (h' : c.head ≤ word.length) :
    headPlace word c = .onCell (decide (c.head = 1)) (decide (c.head = word.length)) := by
  rw [headPlace, if_neg (by omega), if_neg (by omega)]

theorem head_of_onLeft {trail : Bool} (h : .onLeft trail = headPlace word c) :
    c.head = 0 ∧ trail = decide ((1 : Int) = word.length) := by
  unfold headPlace at h
  split at h
  · rename_i hzero
    cases h
    exact ⟨hzero, rfl⟩
  · split at h <;> cases h

theorem head_of_onRight {lead : Bool} (h : .onRight lead = headPlace word c) :
    c.head = word.length + 1 ∧ lead = decide ((word.length : Int) = 1) := by
  unfold headPlace at h
  split at h
  · cases h
  · split at h
    · rename_i hlast
      cases h
      exact ⟨hlast, rfl⟩
    · cases h

theorem head_of_onCell {lead trail : Bool} (hfenced : Fenced a v word c)
    (h : .onCell lead trail = headPlace word c) : 1 ≤ c.head ∧ c.head ≤ word.length ∧
      lead = decide (c.head = 1) ∧ trail = decide (c.head = word.length) := by
  have hnonneg := hfenced.head_nonneg
  have hle := hfenced.head_le
  unfold headPlace at h
  split at h
  · cases h
  · split at h
    · cases h
    · cases h
      exact ⟨by omega, by omega, rfl, rfl⟩

/-- **The composite at the anchor carries the state.** -/
theorem symbolAt_anchor (hne : word ≠ []) (h : Fenced a v word c) :
    symbolAt a v word c (anchor word c) =
      carrying v (headPlace word c) c.state (c.symbol a (anchor word c))
        (letterAt word (anchor word c)) := by
  have hlength : 0 < word.length := List.length_pos_iff.mpr hne
  have hnonneg := h.head_nonneg
  have hle := h.head_le
  have hplace : place? word.length c.head (anchor word c) = some (headPlace word c) := by
    unfold place? headPlace anchor
    split
    · rename_i heq
      rw [if_neg (by omega), if_neg (by omega), ← heq]
    · split
      · rename_i heq
        rw [if_pos heq.1, heq.2]
      · split
        · rename_i heq
          rw [if_neg (by omega), if_pos heq.1, heq.2]
        · omega
  unfold symbolAt
  rw [hplace]

/-- An encoding in two cuts. -/
theorem encode_eq_append {m : Nat} {i j : Int} (hi : 1 ≤ i) (hij : i ≤ j) (hj : j ≤ m + 1) :
    encode a v word m c = row (symbolAt a v word c) 1 (i - 1).toNat ++
      row (symbolAt a v word c) i (j - i).toNat ++
        row (symbolAt a v word c) j (m + 1 - j).toNat := by
  have hm : ((m : Int) + 1 - 1).toNat = m := by omega
  rw [row_append hi hij, row_append (Int.le_trans hi hij) hj, hm, encode]

/-- The encoding around the composite that carries the state. -/
theorem encode_eq_around_anchor {m : Nat} (hne : word ≠ []) (h : Fenced a v word c)
    (hroom : anchor word c ≤ m) :
    encode a v word m c = row (symbolAt a v word c) 1 (anchor word c - 1).toNat ++
      carrying v (headPlace word c) c.state (c.symbol a (anchor word c))
        (letterAt word (anchor word c)) ::
      row (symbolAt a v word c) (anchor word c + 1) (m + 1 - (anchor word c + 1)).toNat := by
  have hlow := (anchor_bounds hne c).1
  have hlt : anchor word c < (m : Int) + 1 := by omega
  rw [encode_eq_append hlow (Int.le_refl _) (Int.le_of_lt hlt), Int.sub_self, row_toNat_cons hlt,
    symbolAt_anchor hne h]
  simp [row]

/-! ## 3. What an encoding spells -/

theorem not_isHelper_symbolAt : ¬ IsHelper (symbolAt a v word c i) := by
  unfold symbolAt
  split
  · exact not_isHelper_carrying _
  · exact not_isHelper_plain _ _

/-- No symbol of an encoding is a helper. -/
theorem not_isHelper_encode (m : Nat) : ∀ s ∈ encode a v word m c, ¬ IsHelper s := by
  intro s hs
  obtain ⟨i, -, -, rfl⟩ := mem_row hs
  exact not_isHelper_symbolAt

/-- There is no letter in an encoding. -/
theorem terminal_not_mem_encode (letter : String) {m : Nat} :
    Symbol.terminal letter ∉ encode a v word m c := by
  intro hmem
  obtain ⟨i, -, -, h⟩ := mem_row hmem
  unfold symbolAt at h
  split at h
  · cases h
  · cases h

section Spelling

variable (hv : Clear a v) (hletters : ∀ letter ∈ word, letter ∈ v.inputs) (h : Fenced a v word c)

include hv hletters h

/-- Every composite stands for the letter of its cell. -/
theorem letter?_symbolAt (hi : 1 ≤ i) (hi' : i ≤ word.length) :
    (reading a v).letter? (symbolAt a v word c i) = some (letterAt word i) := by
  have hx := h.symbol_mem i hi hi'
  have hl := hv.input_mem_cells _ (letterAt_mem hletters hi hi')
  unfold symbolAt
  split
  · exact hv.letter?_carrying h.isState hx hl _
  · exact hv.letter?_plain hx hl _ _

/-- **An encoding spells the letters of its cells.** -/
theorem spelled_encode {m : Nat} (hm : m ≤ word.length) :
    (reading a v).spelled (encode a v word m c) = word.take m := by
  unfold encode
  induction m with
  | zero => rfl
  | succ m ih =>
    have hlt : m < word.length := hm
    have hpos : (1 + (m : Int) - 1).toNat = m := by omega
    have hletter : letterAt word (1 + m) = word[m] := by
      rw [letterAt, hpos, List.getElem?_eq_getElem hlt, Option.getD_some]
    rw [row_succ_last, Reading.spelled_append, ih (by omega), Reading.spelled_cons,
      letter?_symbolAt hv hletters h (by omega) (by omega), hletter, List.take_add_one,
      List.getElem?_eq_getElem hlt, Reading.spelled_nil, List.append_nil]

end Spelling

end TapeGrammar.ContextSensitive
