import TapeGrammar.Proofs.Row
import TapeGrammar.Proofs.Run
import TapeGrammar.Proofs.Unrestricted.Productions

/-!
# Configurations as forms

A configuration is encoded by a row of cells, one for each position from `first` up to but not
including `last`, with the token before the cell under the head.  The head may stand behind the last
cell, and it may be about to leave the row on either side.

The encoding is exact in both directions: a move inside the row is made by a transition production
at one place (`encode_eq_around`, `encode_apply_eq_around`), and a transition production applies to
an encoding in no other way (`move_of_occurs`).  The second statement allows helpers behind the row,
because in a derivation that is not a check the row may still be growing while the machine moves.
-/

namespace TapeGrammar.Unrestricted

open TapeGrammar.Configuration (after?)

variable {a : Automaton} {blank : String} {word : Word} {c : Configuration} {move : Move}
  {p : Production} {first last : Int}

/-! ## 1. Encodings -/

/-- The letter that a cell is generated from, or the padding label outside the word. -/
def originAt (word : Word) (i : Int) : String :=
  if 0 ≤ i then (word[i.toNat]?).getD Symbol.epsilon else Symbol.epsilon

/-- The cell at a position. -/
def cellAt (a : Automaton) (word : Word) (c : Configuration) (i : Int) : Symbol :=
  cell (originAt word i) (c.symbol a i)

/-- **The encoding of a configuration** by the cells from `first` up to `last`. -/
def encode (a : Automaton) (word : Word) (first last : Int) (c : Configuration) : Form :=
  row (cellAt a word c) first (c.head - first).toNat
    ++ token c.state :: row (cellAt a word c) c.head (last - c.head).toNat

/-- The configuration fits the cells from `first` up to `last`: the head is among them or behind the
last, and what is outside has not been touched since the beginning. -/
structure Within (a : Automaton) (word : Word) (first last : Int) (c : Configuration) : Prop where
  first_le : first ≤ c.head
  le_last : c.head ≤ last
  isState : a.isState c.state = true
  symbol_mem : ∀ i, c.symbol a i ∈ a.tapeAlphabet
  untouched : ∀ i, i < first ∨ last ≤ i →
    c.symbol a i = (Configuration.ofWord a word).symbol a i

/-- Whether the cells have room for a move. -/
structure Room (first last : Int) (c : Configuration) (move : Move) : Prop where
  lt_last : c.head < last
  first_lt : move.direction = .left → first < c.head

theorem originAt_mem (hword : ∀ letter ∈ word, letter ∈ a.inputs) (i : Int) :
    originAt word i ∈ origins a := by
  rw [mem_origins_iff]
  unfold originAt
  split
  · cases h : word[i.toNat]? with
    | none => exact Or.inr rfl
    | some letter => exact Or.inl (hword letter (List.mem_of_getElem? h))
  · exact Or.inr rfl

/-- The symbols on the tape at the beginning. -/
theorem symbol_ofWord (hb : a.boundary = .blank blank) (i : Int) :
    (Configuration.ofWord a word).symbol a i =
      if 0 ≤ i then (word[i.toNat]?).getD blank else blank := by
  rw [Configuration.symbol_eq]
  simp only [Configuration.ofWord, hb, Automaton.blank?, Tape.ofList, Option.getD_some]
  cases i with
  | ofNat n => simp [Tape.get?]
  | negSucc n => simp [Tape.get?]

/-- A cell of the word at the beginning. -/
theorem cellAt_ofWord {i : Nat} {letter : String} (hb : a.boundary = .blank blank)
    (h : word[i]? = some letter) :
    cellAt a word (.ofWord a word) i = cell letter letter := by
  simp [cellAt, originAt, symbol_ofWord hb, h]

/-- A cell outside the word at the beginning. -/
theorem cellAt_ofWord_padding {i : Int} (hb : a.boundary = .blank blank)
    (h : i < 0 ∨ (word.length : Int) ≤ i) :
    cellAt a word (.ofWord a word) i = cell Symbol.epsilon blank := by
  unfold cellAt
  rw [symbol_ofWord hb]
  unfold originAt
  split
  · have hnone : word[i.toNat]? = none := List.getElem?_eq_none (by omega)
    simp [hnone]
  · rfl

/-- **The beginning of a run fits any cells around the head.** -/
theorem within_ofWord (ha : a.WellFormed) (hb : a.boundary = .blank blank)
    (hword : ∀ letter ∈ word, letter ∈ a.inputs) (hfirst : first ≤ 0) (hlast : 0 ≤ last) :
    Within a word first last (.ofWord a word) := by
  refine ⟨by simpa using hfirst, by simpa using hlast, ?_, ?_, fun i _ => rfl⟩
  · rw [Configuration.state_ofWord]
    exact Automaton.isState_start
  · intro i
    rw [symbol_ofWord hb]
    split
    · cases h : word[i.toNat]? with
      | none => exact ha.blank_mem_tape hb
      | some letter => exact ha.input_mem_tape (hword letter (List.mem_of_getElem? h))
    · exact ha.blank_mem_tape hb

/-- **A move with room keeps the configuration within the cells.** -/
theorem Within.apply (ha : a.WellFormed) (hb : a.boundary = .blank blank)
    (h : Within a word first last c) (hmove : c.pending? a = some move)
    (hroom : Room first last c move) : Within a word first last (c.apply a move) := by
  have hlt := hroom.lt_last
  have hfirst := h.first_le
  rw [Configuration.pending?_of_blank hb] at hmove
  refine ⟨?_, ?_, Automaton.isState_next hmove, ?_, ?_⟩
  · cases hdir : move.direction with
    | left =>
      have := hroom.first_lt hdir
      rw [Configuration.head_apply_left hdir]
      omega
    | right =>
      rw [Configuration.head_apply_right hdir]
      omega
  · have := Configuration.head_apply_bounds a c move
    omega
  · intro i
    rw [Configuration.symbol_apply]
    split
    · exact (ha.mem_tape_of_move? hb hmove).2
    · exact h.symbol_mem i
  · intro i hi
    rw [Configuration.symbol_apply_of_ne (by omega), h.untouched i hi]

/-- No symbol of a row of cells is a token. -/
theorem not_isToken_row {start : Int} {length : Nat} :
    ∀ s ∈ row (cellAt a word c) start length, ¬ IsToken a s := by
  intro s hs
  obtain ⟨i, -, -, rfl⟩ := mem_row hs
  exact not_isToken_cell

/-- No symbol of a row of cells is a helper. -/
theorem not_isHelper_row {start : Int} {length : Nat} :
    ∀ s ∈ row (cellAt a word c) start length, ¬ IsHelper s := by
  intro s hs
  obtain ⟨i, -, -, rfl⟩ := mem_row hs
  exact not_isHelper_cell

/-- No symbol of an encoding is a helper. -/
theorem not_isHelper_encode (ha : a.WellFormed) (h : Within a word first last c) :
    ∀ s ∈ encode a word first last c, ¬ IsHelper s := by
  intro s hs
  rcases List.mem_append.mp hs with hs | hs
  · exact not_isHelper_row s hs
  · rcases List.mem_cons.mp hs with rfl | hs
    · exact not_isHelper_token ha h.isState
    · exact not_isHelper_row s hs

/-! ## 2. Moves -/

/-- The production that makes a move. -/
def moveProduction (a : Automaton) (word : Word) (c : Configuration) (move : Move) : Production :=
  match move.direction with
  | .right => stepRight ⟨c.state, c.symbol a c.head⟩ move (originAt word c.head)
  | .left =>
    stepLeft ⟨c.state, c.symbol a c.head⟩ move (originAt word c.head)
      (originAt word (c.head - 1)) (c.symbol a (c.head - 1))

/-- The cells before the place of a move. -/
def beforeMove (a : Automaton) (word : Word) (first : Int) (c : Configuration) (move : Move) :
    Form :=
  match move.direction with
  | .right => row (cellAt a word c) first (c.head - first).toNat
  | .left => row (cellAt a word c) first (c.head - 1 - first).toNat

/-- The cells behind the place of a move. -/
def behindMove (a : Automaton) (word : Word) (last : Int) (c : Configuration) : Form :=
  row (cellAt a word c) (c.head + 1) (last - (c.head + 1)).toNat

/-- Away from the head a move changes no cell. -/
theorem row_apply {start : Int} {length : Nat}
    (h : c.head < start ∨ start + length ≤ c.head) :
    row (cellAt a word (c.apply a move)) start length = row (cellAt a word c) start length := by
  refine row_congr fun i hi hi' => ?_
  rw [cellAt, Configuration.symbol_apply_of_ne (by omega), cellAt]

/-- The encoding before a move, around its place. -/
theorem encode_eq_around (hroom : Room first last c move) :
    encode a word first last c = beforeMove a word first c move
      ++ (moveProduction a word c move).left ++ behindMove a word last c := by
  unfold encode beforeMove moveProduction behindMove
  rw [row_toNat_cons hroom.lt_last]
  cases hdir : move.direction with
  | right => simp [stepRight, cellAt]
  | left =>
    rw [row_toNat_concat (hroom.first_lt hdir)]
    simp [stepLeft, cellAt]

/-- The encoding after a move, around its place. -/
theorem encode_apply_eq_around (hfirst : first ≤ c.head) (hroom : Room first last c move) :
    encode a word first last (c.apply a move) = beforeMove a word first c move
      ++ (moveProduction a word c move).right ++ behindMove a word last c := by
  have hlt := hroom.lt_last
  have hbehind : row (cellAt a word (c.apply a move)) (c.head + 1) (last - (c.head + 1)).toNat =
      behindMove a word last c := row_apply (by omega)
  have hcell : cellAt a word (c.apply a move) c.head =
      cell (originAt word c.head) move.write := by
    rw [cellAt, Configuration.symbol_apply_head]
  unfold encode beforeMove moveProduction
  cases hdir : move.direction with
  | right =>
    -- the cell that has been written to is the last one before the token
    rw [Configuration.head_apply_right hdir, row_toNat_concat (by omega : first < c.head + 1),
      hbehind, Int.add_sub_cancel, hcell, row_apply (by omega)]
    simp [stepRight]
  | left =>
    -- the token goes before the cell that the head moves to
    have hpos := hroom.first_lt hdir
    have hprevious : cellAt a word (c.apply a move) (c.head - 1) =
        cell (originAt word (c.head - 1)) (c.symbol a (c.head - 1)) := by
      rw [cellAt, Configuration.symbol_apply_of_ne (by omega)]
    rw [Configuration.head_apply_left hdir, row_toNat_cons (by omega : c.head - 1 < last),
      Int.sub_add_cancel, row_toNat_cons hlt, hbehind, hprevious, hcell, row_apply (by omega)]
    simp [stepLeft]

/-- The production of a move is a transition production. -/
theorem moveProduction_mem (hb : a.boundary = .blank blank)
    (hword : ∀ letter ∈ word, letter ∈ a.inputs) (h : Within a word first last c)
    (hmove : c.pending? a = some move) : moveProduction a word c move ∈ transition a := by
  rw [Configuration.pending?_of_blank hb] at hmove
  refine mem_transition_iff.mpr ⟨c.state, c.symbol a c.head, move, originAt word c.head, hmove,
    originAt_mem hword _, ?_⟩
  unfold moveProduction
  cases hdir : move.direction with
  | right => exact Or.inl ⟨rfl, rfl⟩
  | left =>
    exact Or.inr ⟨rfl, originAt word (c.head - 1), originAt_mem hword _,
      c.symbol a (c.head - 1), h.symbol_mem _, rfl⟩

/-- What follows the token is the cell under the head, if it is a cell. -/
theorem cell_behind_token {tail behind : Form} {origin x : String}
    (htail : ∀ s ∈ tail, ∀ origin x, s ≠ cell origin x)
    (h : cell origin x :: behind = row (cellAt a word c) c.head (last - c.head).toNat ++ tail) :
    c.head < last ∧ cell origin x = cellAt a word c c.head ∧
      behind = behindMove a word last c ++ tail := by
  rcases Int.lt_or_le c.head last with hlt | hge
  · rw [row_toNat_cons hlt, List.cons_append] at h
    obtain ⟨hcell, hbehind⟩ := List.cons.inj h
    exact ⟨hlt, hcell, hbehind⟩
  · have hzero : (last - c.head).toNat = 0 := by omega
    rw [hzero, row, List.nil_append] at h
    exact absurd rfl (htail (cell origin x) (by simp [← h]) origin x)

/-- What precedes the token is the cell before the head, if there is one. -/
theorem cell_before_token {before : Form} {s : Symbol}
    (h : before ++ [s] = row (cellAt a word c) first (c.head - first).toNat) :
    first < c.head ∧ s = cellAt a word c (c.head - 1) ∧
      before = row (cellAt a word c) first (c.head - 1 - first).toNat := by
  rcases Int.lt_or_le first c.head with hlt | hge
  · rw [row_toNat_concat hlt] at h
    obtain ⟨hbefore, hs⟩ := List.append_inj' h rfl
    exact ⟨hlt, List.head_eq_of_cons_eq hs, hbefore⟩
  · have hzero : (c.head - first).toNat = 0 := by omega
    rw [hzero, row] at h
    simp at h

/-- **A transition production applies to an encoding only where it makes a move.**  Behind the row
there may be symbols that are neither tokens nor cells. -/
theorem move_of_occurs (hb : a.boundary = .blank blank) {tail before behind : Form}
    (htail : ∀ s ∈ tail, ¬ IsToken a s ∧ ∀ origin x, s ≠ cell origin x) (hp : p ∈ transition a)
    (hform : encode a word first last c ++ tail = before ++ p.left ++ behind) :
    ∃ move, c.pending? a = some move ∧ Room first last c move ∧
      p = moveProduction a word c move ∧ before = beforeMove a word first c move ∧
        behind = behindMove a word last c ++ tail := by
  obtain ⟨q, x, move, origin, hmove, -, hshape⟩ := mem_transition_iff.mp hp
  have hq : IsToken a (token q) := ⟨q, Automaton.isState_of_move? hmove, rfl⟩
  have hbefore : ∀ s ∈ row (cellAt a word c) first (c.head - first).toNat, ¬ IsToken a s :=
    not_isToken_row
  have hbehind : ∀ s ∈ row (cellAt a word c) c.head (last - c.head).toNat ++ tail,
      ¬ IsToken a s := by
    intro s hs
    rcases List.mem_append.mp hs with hs | hs
    · exact not_isToken_row s hs
    · exact (htail s hs).1
  have hcells : ∀ s ∈ tail, ∀ origin x, s ≠ cell origin x := fun s hs => (htail s hs).2
  rw [encode, List.append_assoc, List.cons_append] at hform
  rw [Configuration.pending?_of_blank hb]
  -- the token of the left side is the one of the encoding, so that its cells are around the head
  rcases hshape with ⟨hdir, rfl⟩ | ⟨hdir, previous, -, symbol, -, rfl⟩
  · have hsplit : before ++ token q :: (cell origin x :: behind) =
        row (cellAt a word c) first (c.head - first).toNat ++
          token c.state :: (row (cellAt a word c) c.head (last - c.head).toNat ++ tail) := by
      rw [hform]
      simp [stepRight]
    obtain ⟨rfl, htoken, hrest⟩ := split_unique hq hbefore hbehind hsplit
    obtain ⟨hlt, hcell, rfl⟩ := cell_behind_token hcells hrest
    rw [token_inj] at htoken
    rw [cellAt, cell_inj] at hcell
    rw [htoken, hcell.2] at hmove
    refine ⟨move, hmove, ⟨hlt, ?_⟩, ?_, ?_, rfl⟩
    · rw [hdir]
      exact fun h => absurd h (by decide)
    · simp only [moveProduction, hdir, htoken, hcell.1, hcell.2]
    · simp only [beforeMove, hdir]
  · have hsplit : (before ++ [cell previous symbol]) ++ token q :: (cell origin x :: behind) =
        row (cellAt a word c) first (c.head - first).toNat ++
          token c.state :: (row (cellAt a word c) c.head (last - c.head).toNat ++ tail) := by
      rw [hform]
      simp [stepLeft]
    obtain ⟨hprevious, htoken, hrest⟩ := split_unique hq hbefore hbehind hsplit
    obtain ⟨hlt, hcell, rfl⟩ := cell_behind_token hcells hrest
    obtain ⟨hpos, hcell', rfl⟩ := cell_before_token hprevious
    rw [token_inj] at htoken
    rw [cellAt, cell_inj] at hcell hcell'
    rw [htoken, hcell.2] at hmove
    refine ⟨move, hmove, ⟨hlt, fun _ => hpos⟩, ?_, ?_, rfl⟩
    · simp only [moveProduction, hdir, htoken, hcell.1, hcell.2, hcell'.1, hcell'.2]
    · simp only [beforeMove, hdir]

/-! ## 3. What an encoding spells -/

/-- The cells from a position before the word on spell as much of the word as they cover. -/
theorem spelled_row (hword : ∀ letter ∈ word, letter ≠ Symbol.epsilon) (hfirst : first ≤ 0)
    (length : Nat) :
    reading.spelled (row (cellAt a word c) first length) = word.take (first + length).toNat := by
  induction length with
  | zero =>
    have hzero : (first + ((0 : Nat) : Int)).toNat = 0 := by omega
    rw [row, hzero, List.take_zero, Reading.spelled_nil]
  | succ length ih =>
    rw [row_succ_last, Reading.spelled_append, ih, Reading.spelled_cons, Reading.spelled_nil,
      List.append_nil, cellAt, letter?_cell]
    unfold originAt
    split
    · rename_i hpos
      have hnext : (first + ((length + 1 : Nat) : Int)).toNat = (first + (length : Int)).toNat + 1 := by
        omega
      rw [hnext, List.take_add_one]
      congr 1
      cases h : word[(first + (length : Int)).toNat]? with
      | none => simp
      | some letter => simp [hword letter (List.mem_of_getElem? h)]
    · have hzero : (first + (length : Int)).toNat = 0 := by omega
      have hzero' : (first + ((length + 1 : Nat) : Int)).toNat = 0 := by omega
      rw [hzero, hzero']
      simp

/-- **The encoding of a configuration spells the word** if it covers the word. -/
theorem spelled_encode (hword : ∀ letter ∈ word, letter ≠ Symbol.epsilon) (hfirst : first ≤ 0)
    (hlast : (word.length : Int) ≤ last) (h : Within a word first last c) :
    reading.spelled (encode a word first last c) = word := by
  have hlen : first + ((last - first).toNat : Int) = last := by
    have := h.first_le
    have := h.le_last
    omega
  have hrow : reading.spelled (encode a word first last c) =
      reading.spelled (row (cellAt a word c) first (last - first).toNat) := by
    rw [← row_append h.first_le h.le_last, encode, Reading.spelled_append, Reading.spelled_append,
      Reading.spelled_cons]
    rfl
  rw [hrow, spelled_row hword hfirst, hlen, List.take_of_length_le (by omega)]

end TapeGrammar.Unrestricted
