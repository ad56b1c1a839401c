import TapeGrammar.Proofs.Run

/-!
# Following a run along a stretch of the tape

What a machine does over many steps is told in terms of a VIEW: its state, and the position of its
head and the symbols on a stretch of the tape, counted from an origin.  The stretch is that of a word
with one cell on either side, whatever the tape looks like elsewhere.

One view LEADS to another (`Leads`) if a machine that shows the first comes to show the second, and
its head never leaves the stretch on the way.  Views are chained by transitivity.  The steps that are
needed over and over are single moves, and scans: the head runs over part of the stretch in one state
and rewrites what it passes.
-/

namespace TapeGrammar

/-! ## 1. Cells that are there -/

namespace Tape

/-- A write to a cell that is there changes this cell only. -/
theorem get?_write_of_isSome {tape : Tape} {position : Int} (h : (tape.get? position).isSome = true)
    (filler symbol : String) (p : Int) :
    (tape.write filler position symbol).get? p =
      if p = position then some symbol else tape.get? p := by
  have hput : ∀ {cells : Array String} {i : Nat}, (cells[i]?).isSome = true → ∀ j : Nat,
      (put cells i filler symbol)[j]? = if j = i then some symbol else cells[j]? := by
    intro cells i hi j
    have hlt : i < cells.size := by simpa using hi
    rw [put, if_pos hlt, Array.getElem?_setIfInBounds]
    by_cases hj : j = i
    · simp [hj, hlt]
    · simp [hj, Ne.symm hj]
  cases position <;> cases p <;> simp only [write, get?, hput h, Int.ofNat.injEq, Int.negSucc.injEq,
    reduceCtorEq, if_false]

end Tape

namespace Configuration

variable {a : Automaton} {c c' : Configuration} {move : Move}

/-- **A move of a machine that reads a symbol changes this cell only.** -/
theorem cell?_apply (h : (c.read? a).isSome = true) (p : Int) :
    (c.apply a move).cell? a p = if p = c.head then some move.write else c.cell? a p := by
  unfold read? cell? at h
  unfold cell?
  cases hblank : a.blank? with
  | none =>
    rw [hblank, Option.orElse_eq_orElse, Option.orElse_eq_or, Option.or_none] at h
    simp only [apply, Tape.get?_write_of_isSome h]
    split <;> rfl
  | some blank =>
    have hfill : ∀ tape : Tape, (tape.get? p <|> some blank) = some ((tape.get? p).getD blank) := by
      intro tape
      cases tape.get? p <;> rfl
    rw [hfill, hfill, apply, hblank]
    show some ((Tape.get? _ p).getD blank) = _
    rw [Option.getD_some, Tape.getD_get?_write]
    split <;> rfl

/-- The first of several moves. -/
theorem after?_succ_of_pending (hmove : c.pending? a = some move) (n : Nat) :
    after? a (n + 1) c = after? a n (c.apply a move) := by
  induction n with
  | zero => simp [after?, hmove]
  | succ n ih =>
    rw [after?, ih]
    rfl

/-! ## 2. Trails -/

/-- The machine comes from one configuration to another, and all configurations on the way have the
property `P`. -/
inductive Trail (a : Automaton) (P : Configuration → Prop) : Configuration → Configuration → Prop
  | here {c : Configuration} : P c → Trail a P c c
  | move {c c' : Configuration} {m : Move} : P c → c.pending? a = some m →
    Trail a P (c.apply a m) c' → Trail a P c c'

variable {P : Configuration → Prop} {c₁ c₂ c₃ : Configuration}

theorem Trail.trans (h : Trail a P c₁ c₂) (h' : Trail a P c₂ c₃) : Trail a P c₁ c₃ := by
  induction h with
  | here => exact h'
  | move hP hmove _ ih => exact .move hP hmove (ih h')

/-- **A trail is a run**, and it passes no other configurations. -/
theorem Trail.after? (h : Trail a P c c') : ∃ n, after? a n c = some c' ∧
    ∀ m c₁, m ≤ n → Configuration.after? a m c = some c₁ → P c₁ := by
  induction h with
  | here hP =>
    refine ⟨0, rfl, fun m c₁ hm hc₁ => ?_⟩
    obtain rfl : m = 0 := by omega
    cases hc₁
    exact hP
  | @move c c' move hP hmove _ ih =>
    obtain ⟨n, hn, hpasses⟩ := ih
    refine ⟨n + 1, by rw [after?_succ_of_pending hmove, hn], fun m c₁ hm hc₁ => ?_⟩
    cases m with
    | zero =>
      cases hc₁
      exact hP
    | succ m =>
      rw [after?_succ_of_pending hmove] at hc₁
      exact hpasses m c₁ (by omega) hc₁

end Configuration

/-! ## 3. Views -/

open TapeGrammar.Configuration (Trail)

/-- What is seen of a machine: its state, the position of its head, and the symbols. -/
structure View where
  state : String
  head : Int
  row : Int → String

/-- The head is on the stretch from the cell before the word to the one behind it, where the word has
`n` letters and begins at `origin`. -/
def Inside (origin : Int) (n : Nat) (c : Configuration) : Prop :=
  origin - 1 ≤ c.head ∧ c.head ≤ origin + n

/-- The machine shows the view on the stretch. -/
structure Shows (a : Automaton) (origin : Int) (n : Nat) (c : Configuration) (v : View) : Prop where
  state_eq : c.state = v.state
  head_eq : c.head = origin + v.head
  inside : Inside origin n c
  cells : ∀ i : Int, -1 ≤ i → i ≤ n → c.cell? a (origin + i) = some (v.row i)

/-- A machine that shows the first view comes to show the second, without leaving the stretch. -/
def Leads (a : Automaton) (origin : Int) (n : Nat) (v v' : View) : Prop :=
  ∀ c, Shows a origin n c v → ∃ c', Trail a (Inside origin n) c c' ∧ Shows a origin n c' v'

variable {a : Automaton} {origin : Int} {n : Nat} {v v' v'' : View} {c : Configuration}
  {state state' : String} {i i' : Int} {row row' : Int → String}

namespace Leads

theorem refl (v : View) : Leads a origin n v v := fun c h => ⟨c, .here h.inside, h⟩

theorem trans (h : Leads a origin n v v') (h' : Leads a origin n v' v'') :
    Leads a origin n v v'' := by
  intro c hc
  obtain ⟨c', htrail, hc'⟩ := h c hc
  obtain ⟨c'', htrail', hc''⟩ := h' c' hc'
  exact ⟨c'', htrail.trans htrail', hc''⟩

instance : Trans (Leads a origin n) (Leads a origin n) (Leads a origin n) := ⟨trans⟩

end Leads

/-- The symbol that a machine with this view reads. -/
theorem Shows.read?_eq (h : Shows a origin n c v) : c.read? a = some (v.row v.head) := by
  have hi : -1 ≤ v.head ∧ v.head ≤ n := by
    have := h.inside
    have := h.head_eq
    simp only [Inside] at *
    omega
  rw [Configuration.read?, h.head_eq]
  exact h.cells v.head hi.1 hi.2

/-- The move that a machine with this view makes. -/
theorem Shows.pending?_eq (h : Shows a origin n c ⟨state, i, row⟩) {move : Option Move}
    (hmove : a.move? state (row i) = move) : c.pending? a = move := by
  rw [Configuration.pending?, h.read?_eq, Option.bind_some, h.state_eq, hmove]

/-- **One move changes the view in one cell.** -/
theorem Shows.apply (hc : Shows a origin n c ⟨state, i, row⟩) {move : Move}
    (hmove : a.move? state (row i) = some move) {k : Int} (hhead : k = match move.direction with
      | .left => i - 1
      | .right => i + 1)
    (hk : -1 ≤ k ∧ k ≤ n) (hcell : row' i = move.write) (hsame : ∀ j, j ≠ i → row' j = row j) :
    Shows a origin n (c.apply a move) ⟨move.next, k, row'⟩ := by
  have hhead' : (c.apply a move).head = origin + k := by
    rw [Configuration.apply, hhead]
    have := hc.head_eq
    cases move.direction <;> (simp only at *; omega)
  have hinside : Inside origin n (c.apply a move) := by
    simp only [Inside, hhead']
    omega
  refine ⟨rfl, hhead', hinside, fun j hj hjn => ?_⟩
  have hread : (c.read? a).isSome = true := by
    obtain ⟨x, hx, -⟩ := Option.bind_eq_some_iff.mp (hc.pending?_eq hmove)
    rw [hx]
    rfl
  rw [Configuration.cell?_apply hread, hc.head_eq]
  by_cases hij : j = i
  · rw [if_pos (by rw [hij]), hij]
    exact congrArg some hcell.symm
  · rw [if_neg (by simp only; omega), hc.cells j hj hjn]
    exact congrArg some (hsame j hij).symm

theorem Leads.of_move {move : Move} (hmove : a.move? state (row i) = some move)
    {k : Int} (hhead : k = match move.direction with
      | .left => i - 1
      | .right => i + 1)
    (hk : -1 ≤ k ∧ k ≤ n) (hcell : row' i = move.write) (hsame : ∀ j, j ≠ i → row' j = row j) :
    Leads a origin n ⟨state, i, row⟩ ⟨move.next, k, row'⟩ := by
  intro c hc
  have hnext := hc.apply hmove hhead hk hcell hsame
  exact ⟨c.apply a move, .move hc.inside (hc.pending?_eq hmove) (.here hnext.inside), hnext⟩

namespace Leads

/-- A move to the right. -/
theorem right (hmove : a.move? state (row i) = some ⟨state', row' i, .right⟩)
    (hsame : ∀ j, j ≠ i → row' j = row j) (hi : -1 ≤ i) (hin : i < n) :
    Leads a origin n ⟨state, i, row⟩ ⟨state', i + 1, row'⟩ :=
  of_move (k := i + 1) hmove rfl (by omega) rfl hsame

/-- A move to the left. -/
theorem left (hmove : a.move? state (row i) = some ⟨state', row' i, .left⟩)
    (hsame : ∀ j, j ≠ i → row' j = row j) (hi : 0 ≤ i) (hin : i ≤ n) :
    Leads a origin n ⟨state, i, row⟩ ⟨state', i - 1, row'⟩ :=
  of_move (k := i - 1) hmove rfl (by omega) rfl hsame

/-- **A scan to the right** rewrites the cells from `i` on, up to the one before `i'`. -/
theorem scan_right (hii' : i ≤ i') (hi : -1 ≤ i) (hi' : i' ≤ n)
    (hmove : ∀ j, i ≤ j → j < i' → a.move? state (row j) = some ⟨state, row' j, .right⟩)
    (hsame : ∀ j, ¬ (i ≤ j ∧ j < i') → row' j = row j) :
    Leads a origin n ⟨state, i, row⟩ ⟨state, i', row'⟩ := by
  obtain ⟨k, rfl⟩ := Int.le.dest hii'
  induction k generalizing i row with
  | zero =>
    obtain rfl : row' = row := funext fun j => hsame j (by omega)
    rw [show i + ((0 : Nat) : Int) = i from Int.add_zero i]
    exact refl _
  | succ k ih =>
    -- the cell under the head is rewritten first, and the rest is a shorter scan
    let next : Int → String := fun j => if j = i then row' i else row j
    have hnext : next i = row' i := if_pos rfl
    have hrest : ∀ j, j ≠ i → next j = row j := fun j hj => if_neg hj
    have hfirst : Leads a origin n ⟨state, i, row⟩ ⟨state, i + 1, next⟩ :=
      right (by rw [hnext]; exact hmove i (Int.le_refl i) (by omega)) hrest hi (by omega)
    have hscan : Leads a origin n ⟨state, i + 1, next⟩ ⟨state, i + 1 + k, row'⟩ := by
      refine ih (by omega) (by omega) (by omega) (fun j hj hlt => ?_) (fun j hj => ?_)
      · rw [hrest j (by omega)]
        exact hmove j (by omega) (by omega)
      · by_cases hji : j = i
        · rw [hji, hnext]
        · rw [hrest j hji]
          exact hsame j (by omega)
    have hend : i + 1 + (k : Int) = i + ((k + 1 : Nat) : Int) := by omega
    rw [hend] at hscan
    exact hfirst.trans hscan

/-- **A scan to the left** rewrites the cells from `i` on, down to the one behind `i'`. -/
theorem scan_left (hii' : i' ≤ i) (hi : -1 ≤ i') (hi' : i ≤ n)
    (hmove : ∀ j, i' < j → j ≤ i → a.move? state (row j) = some ⟨state, row' j, .left⟩)
    (hsame : ∀ j, ¬ (i' < j ∧ j ≤ i) → row' j = row j) :
    Leads a origin n ⟨state, i, row⟩ ⟨state, i', row'⟩ := by
  obtain ⟨k, rfl⟩ := Int.le.dest hii'
  induction k generalizing row with
  | zero =>
    obtain rfl : row' = row := funext fun j => hsame j (by omega)
    rw [show i' + ((0 : Nat) : Int) = i' from Int.add_zero i']
    exact refl _
  | succ k ih =>
    let here := i' + ((k + 1 : Nat) : Int)
    let next : Int → String := fun j => if j = here then row' here else row j
    have hnext : next here = row' here := if_pos rfl
    have hrest : ∀ j, j ≠ here → next j = row j := fun j hj => if_neg hj
    have hfirst : Leads a origin n ⟨state, here, row⟩ ⟨state, here - 1, next⟩ :=
      left (by rw [hnext]; exact hmove here (by omega) (Int.le_refl here)) hrest (by omega) hi'
    have hscan : Leads a origin n ⟨state, i' + k, next⟩ ⟨state, i', row'⟩ := by
      refine ih (by omega) (by omega) (fun j hj hle => ?_) (fun j hj => ?_)
      · rw [hrest j (by omega)]
        exact hmove j hj (by omega)
      · by_cases hji : j = here
        · rw [hji, hnext]
        · rw [hrest j hji]
          exact hsame j (by omega)
    have hend : here - 1 = i' + (k : Int) := by omega
    rw [← hend] at hscan
    exact hfirst.trans hscan

end Leads

end TapeGrammar
