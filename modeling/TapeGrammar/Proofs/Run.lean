import Mathlib.Order.Basic
import TapeGrammar.Configuration
import TapeGrammar.Proofs.WellFormed

/-!
# Runs

A machine is deterministic, so a run is a sequence of configurations: `Configuration.after? a n c`
is the one that `n` moves lead to, if the machine makes that many.  The loop that runs a machine on
a word is described by it without fuel: `Configuration.Ends` says how the run ends, and
`Configuration.toHalt_iff` that this is what the loop answers.

The tape is looked at as a function of the position.  A move changes it under the head only, no
matter on which side of zero the head is and whether the array there has to grow.
-/

namespace TapeGrammar

/-! ## 1. The tape as a function of the position -/

namespace Tape

/-- A write changes one cell; what an array is filled up with was there before. -/
theorem getD_put (cells : Array String) (index j : Nat) (filler symbol : String) :
    (put cells index filler symbol)[j]?.getD filler =
      if j = index then symbol else cells[j]?.getD filler := by
  unfold put
  split
  · rename_i hlt
    by_cases hj : j = index
    · subst hj
      simp [hlt]
    · simp [hj, Ne.symm hj]
  · rename_i hge
    by_cases hj : j = index
    · subst hj
      simp only [if_pos]
      rw [Array.getElem?_push, if_pos (by simp; omega), Option.getD_some]
    · rw [Array.getElem?_push, if_neg (by simp; omega), if_neg hj, Array.getElem?_append]
      split
      · rfl
      · rename_i hsize
        rw [Array.getElem?_eq_none (by omega : cells.size ≤ j), Array.getElem?_replicate]
        split <;> rfl

/-- **A write changes the symbol at its own position only**, on either side of zero. -/
theorem getD_get?_write (tape : Tape) (filler symbol : String) (position p : Int) :
    ((tape.write filler position symbol).get? p).getD filler =
      if p = position then symbol else (tape.get? p).getD filler := by
  cases position <;> cases p <;> simp only [write, get?, getD_put, Int.ofNat.injEq, Int.negSucc.injEq,
    reduceCtorEq, if_false]

/-- A write within the right array keeps both sizes. -/
theorem size_write {tape : Tape} {i : Nat} (hi : i < tape.right.size) (filler symbol : String) :
    (tape.write filler (i : Int) symbol).right.size = tape.right.size ∧
      (tape.write filler (i : Int) symbol).left = tape.left := by
  show (put tape.right i filler symbol).size = _ ∧ tape.left = tape.left
  rw [put, if_pos hi, Array.size_setIfInBounds]
  exact ⟨rfl, rfl⟩

end Tape

namespace Configuration

variable {a : Automaton} {c c' : Configuration} {move : Move} {blank : String}

/-- The symbol at a position; the empty text where nothing stands. -/
def symbol (a : Automaton) (c : Configuration) (p : Int) : String := (c.cell? a p).getD ""

theorem symbol_eq (a : Automaton) (c : Configuration) (p : Int) :
    c.symbol a p = (c.tape.get? p).getD (a.blank?.getD "") := by
  unfold symbol cell?
  cases c.tape.get? p <;> rfl

/-- **A move changes the tape under the head only.** -/
theorem symbol_apply (p : Int) :
    (c.apply a move).symbol a p = if p = c.head then move.write else c.symbol a p := by
  rw [symbol_eq, symbol_eq]
  exact Tape.getD_get?_write _ _ _ _ _

theorem symbol_apply_of_ne {p : Int} (h : p ≠ c.head) :
    (c.apply a move).symbol a p = c.symbol a p := by
  rw [symbol_apply, if_neg h]

@[simp] theorem symbol_apply_head : (c.apply a move).symbol a c.head = move.write := by
  rw [symbol_apply, if_pos rfl]

@[simp] theorem state_apply : (c.apply a move).state = move.next := rfl

@[simp] theorem steps_apply : (c.apply a move).steps = c.steps + 1 := rfl

theorem head_apply_right (h : move.direction = .right) : (c.apply a move).head = c.head + 1 := by
  simp [apply, h]

theorem head_apply_left (h : move.direction = .left) : (c.apply a move).head = c.head - 1 := by
  simp [apply, h]

/-- The head moves by one cell. -/
theorem head_apply_bounds (a : Automaton) (c : Configuration) (move : Move) :
    c.head - 1 ≤ (c.apply a move).head ∧ (c.apply a move).head ≤ c.head + 1 := by
  cases h : move.direction with
  | left =>
    rw [head_apply_left h]
    omega
  | right =>
    rw [head_apply_right h]
    omega

/-- A Turing machine reads a symbol wherever its head is. -/
theorem pending?_of_blank (hb : a.boundary = .blank blank) :
    c.pending? a = a.move? c.state (c.symbol a c.head) := by
  have hblank : a.blank? = some blank := by simp [Automaton.blank?, hb]
  unfold pending? read? symbol cell?
  rw [hblank]
  cases c.tape.get? c.head <;> rfl

/-- A step moves if there is a move to make. -/
theorem step_eq_moved_iff : c.step a = (.moved, c') ↔
    ∃ move, c.pending? a = some move ∧ c' = c.apply a move := by
  unfold step
  cases c.pending? a with
  | none => simp
  | some move => simp [eq_comm]

/-- A step halts if there is none. -/
theorem step_halted_iff : (c.step a).1 = .halted ↔ c.pending? a = none := by
  unfold step
  cases c.pending? a <;> simp

/-! ## 2. So many moves -/

/-- The configuration after exactly `n` moves, if the machine makes that many. -/
def after? (a : Automaton) : (n : Nat) → Configuration → Option Configuration
  | 0, c => some c
  | n + 1, c => (after? a n c).bind fun c => (c.pending? a).map (c.apply a)

@[simp] theorem after?_zero : after? a 0 c = some c := rfl

theorem after?_succ_iff {n : Nat} :
    after? a (n + 1) c = some c' ↔
      ∃ c₁ move, after? a n c = some c₁ ∧ c₁.pending? a = some move ∧ c' = c₁.apply a move := by
  simp only [after?, Option.bind_eq_some_iff, Option.map_eq_some_iff]
  constructor
  · rintro ⟨c₁, h, move, hmove, rfl⟩
    exact ⟨c₁, move, h, hmove, rfl⟩
  · rintro ⟨c₁, move, h, hmove, rfl⟩
    exact ⟨c₁, h, move, hmove, rfl⟩

/-- One more move is one more step. -/
theorem after?_succ_iff_step {n : Nat} : after? a (n + 1) c = some c' ↔
    ∃ c₁, after? a n c = some c₁ ∧ c₁.step a = (.moved, c') := by
  rw [after?_succ_iff]
  refine exists_congr fun c₁ => ?_
  rw [step_eq_moved_iff]
  simp

theorem after?_succ {n : Nat} {c₁ : Configuration} (h : after? a n c = some c₁)
    (hmove : c₁.pending? a = some move) : after? a (n + 1) c = some (c₁.apply a move) :=
  after?_succ_iff.mpr ⟨c₁, move, h, hmove, rfl⟩

/-- A machine that makes `m` moves makes fewer too, and has a move left then. -/
theorem after?_of_lt {n m : Nat} (hlt : n < m) (h : after? a m c = some c') :
    ∃ c₁ move, after? a n c = some c₁ ∧ c₁.pending? a = some move := by
  induction m generalizing c' with
  | zero => omega
  | succ m ih =>
    obtain ⟨c₁, move, h₁, hmove, -⟩ := after?_succ_iff.mp h
    rcases Nat.lt_or_ge n m with hn | hn
    · exact ih hn h₁
    · obtain rfl : n = m := by omega
      exact ⟨c₁, move, h₁, hmove⟩

/-- A machine that has halted makes no more moves. -/
theorem le_of_halted {n m : Nat} {c₁ : Configuration} (h : after? a n c = some c₁)
    (hhalt : c₁.pending? a = none) (hm : after? a m c = some c') : m ≤ n := by
  by_contra hlt
  obtain ⟨c₂, move, h₂, hmove⟩ := after?_of_lt (by omega : n < m) hm
  rw [h] at h₂
  cases h₂
  rw [hhalt] at hmove
  cases hmove

theorem steps_after? {n : Nat} (h : after? a n c = some c') : c'.steps = c.steps + n := by
  induction n generalizing c' with
  | zero =>
    cases h
    rfl
  | succ n ih =>
    obtain ⟨c₁, move, h₁, -, rfl⟩ := after?_succ_iff.mp h
    rw [steps_apply, ih h₁]
    omega

@[simp] theorem steps_ofWord (word : Word) : (ofWord a word).steps = 0 := by
  unfold ofWord
  split <;> rfl

@[simp] theorem state_ofWord (word : Word) : (ofWord a word).state = a.start := by
  unfold ofWord
  split <;> rfl

@[simp] theorem head_ofWord (word : Word) : (ofWord a word).head = 0 := by
  unfold ofWord
  split <;> rfl

/-- **What one move keeps, a run keeps.** -/
theorem after?_invariant {I : Configuration → Prop}
    (hmove : ∀ c move, I c → c.pending? a = some move → I (c.apply a move)) {n : Nat}
    (hinv : I c) (h : after? a n c = some c') : I c' := by
  induction n generalizing c' with
  | zero =>
    cases h
    exact hinv
  | succ n ih =>
    obtain ⟨c₁, move, h₁, hp, rfl⟩ := after?_succ_iff.mp h
    exact hmove c₁ move (ih h₁) hp

/-- The head is no further away than the number of moves. -/
theorem head_after? {n : Nat} (h : after? a n c = some c') :
    c.head - n ≤ c'.head ∧ c'.head ≤ c.head + n := by
  induction n generalizing c' with
  | zero =>
    cases h
    omega
  | succ n ih =>
    obtain ⟨c₁, move, h₁, -, rfl⟩ := after?_succ_iff.mp h
    have := ih h₁
    have := head_apply_bounds a c₁ move
    omega

/-- The machine passes a final state on its way from a configuration. -/
def PassesFinal (a : Automaton) (c : Configuration) : Prop :=
  ∃ n c', after? a n c = some c' ∧ a.isFinal c'.state = true

/-! ## 3. How a run ends -/

/-- Whether a limit allows so many steps. -/
def Allows (limit : Option Nat) (n : Nat) : Prop := ∀ k, limit = some k → n ≤ k

/-- How the run from a configuration ends, and where. -/
inductive Ends (a : Automaton) (limit : Option Nat) (c : Configuration) :
    Except RunError Outcome → Configuration → Prop where
  /-- The machine halts before the limit is exceeded. -/
  | halted (n : Nat) (c' : Configuration) (h : after? a n c = some c')
    (hhalt : c'.pending? a = none) (hlimit : Allows limit n) : Ends a limit c (.ok (c'.outcome a)) c'
  /-- The machine makes one step more than the limit allows. -/
  | limited (k : Nat) (c' : Configuration) (hlimit : limit = some k)
    (h : after? a (k + 1) c = some c') : Ends a limit c (.error (.stepLimit k)) c'

theorem filter_lt_eq_none_iff {limit : Option Nat} {n : Nat} :
    limit.filter (· < n) = none ↔ Allows limit n := by
  cases limit <;> simp [Allows]

theorem filter_lt_eq_some_iff {limit : Option Nat} {n k : Nat} :
    limit.filter (· < n) = some k ↔ limit = some k ∧ k < n := by
  cases limit with
  | none => simp
  | some j =>
    simp only [Option.filter_eq_some_iff, Option.some.injEq, decide_eq_true_eq]

/-- One round of a run that has a move left. -/
theorem runRound_of_pending {limit : Option Nat} (hmove : c.pending? a = some move) :
    runRound a limit c = match limit.filter (· < c.steps + 1) with
      | some k => .done (.error (.stepLimit k), c.apply a move)
      | none => .again (c.apply a move) := by
  simp only [runRound, step, hmove]
  rfl

/-- One round of a run that has none. -/
theorem runRound_of_halted {limit : Option Nat} (hhalt : c.pending? a = none) :
    runRound a limit c = .done (.ok (c.outcome a), c) := by
  simp only [runRound, step, hhalt]

/-- What the loop answers is how the run ends. -/
theorem ends_of_toHalt {limit : Option Nat} {fuel : Nat} {result : Except RunError Outcome}
    (hsteps : c.steps = 0) (h : c.toHalt a limit fuel = some (result, c')) :
    Ends a limit c result c' := by
  -- the loop has made the moves that the steps of its configuration count
  let Inv : Configuration → Prop := fun s => after? a s.steps c = some s ∧ Allows limit s.steps
  refine iterate_invariant (I := Inv) (P := fun out => Ends a limit c out.1 out.2) ?_ ?_ ?_ h
  · rintro s next ⟨hs, -⟩ hround
    cases hp : s.pending? a with
    | none =>
      rw [runRound_of_halted hp] at hround
      cases hround
    | some move =>
      rw [runRound_of_pending hp] at hround
      split at hround
      · cases hround
      · rename_i hlimit
        obtain rfl : s.apply a move = next := by simpa using hround
        exact ⟨after?_succ hs hp, filter_lt_eq_none_iff.mp hlimit⟩
  · rintro s out ⟨hs, hallows⟩ hround
    cases hp : s.pending? a with
    | none =>
      rw [runRound_of_halted hp] at hround
      obtain rfl : (Except.ok (s.outcome a), s) = out := by simpa using hround
      exact .halted s.steps s hs hp hallows
    | some move =>
      rw [runRound_of_pending hp] at hround
      split at hround
      · rename_i k hk
        obtain rfl : (Except.error (.stepLimit k), s.apply a move) = out := by simpa using hround
        obtain ⟨hlimit, hlt⟩ := filter_lt_eq_some_iff.mp hk
        have hk : s.steps = k := by
          have := hallows k hlimit
          omega
        exact .limited k _ hlimit (hk ▸ after?_succ hs hp)
      · cases hround
  · refine ⟨?_, ?_⟩
    · rw [hsteps]
      rfl
    · rw [hsteps]
      exact fun k _ => Nat.zero_le k

/-- A run that ends makes no more than so many moves within the limit. -/
theorem Ends.bounded {limit : Option Nat} {result : Except RunError Outcome}
    (h : Ends a limit c result c') :
    ∃ m, ∀ n c₁, after? a n c = some c₁ → Allows limit n → n ≤ m := by
  cases h with
  | halted n c' h hhalt _ => exact ⟨n, fun m c₁ hm _ => le_of_halted h hhalt hm⟩
  | limited k c' hlimit h => exact ⟨k, fun m c₁ _ hallows => hallows k hlimit⟩

/-- The loop comes to every end of the run. -/
theorem toHalt_of_ends {limit : Option Nat} {result : Except RunError Outcome}
    (hsteps : c.steps = 0) (h : Ends a limit c result c') :
    ∃ fuel out, c.toHalt a limit fuel = some out := by
  obtain ⟨m, hm⟩ := h.bounded
  let Inv : Configuration → Prop := fun s => after? a s.steps c = some s ∧ Allows limit s.steps
  refine ⟨m + 1, ?_⟩
  refine iterate_terminates (I := Inv) (m := fun s => m - s.steps) ?_ ?_ (by omega)
  · rintro s ⟨hs, hallows⟩
    cases hp : s.pending? a with
    | none => exact Or.inl ⟨_, congrArg some (runRound_of_halted hp)⟩
    | some move =>
      rw [runRound_of_pending hp]
      cases hk : limit.filter (· < s.steps + 1) with
      | some k => exact Or.inl ⟨_, rfl⟩
      | none =>
        have hnext := filter_lt_eq_none_iff.mp hk
        have hle : s.steps + 1 ≤ m := hm _ _ (after?_succ hs hp) hnext
        refine Or.inr ⟨s.apply a move, rfl, ⟨after?_succ hs hp, hnext⟩, ?_⟩
        show m - (s.steps + 1) < m - s.steps
        omega
  · refine ⟨?_, ?_⟩
    · rw [hsteps]
      rfl
    · rw [hsteps]
      exact fun k _ => Nat.zero_le k

/-- A run has one end. -/
theorem Ends.unique {limit : Option Nat} {r r' : Except RunError Outcome} {c₁ c₂ : Configuration}
    (h : Ends a limit c r c₁) (h' : Ends a limit c r' c₂) : r = r' ∧ c₁ = c₂ := by
  cases h with
  | halted n _ hn hhalt hallows =>
    cases h' with
    | halted m _ hm hhalt' _ =>
      obtain rfl : n = m := Nat.le_antisymm (le_of_halted hm hhalt' hn) (le_of_halted hn hhalt hm)
      rw [hn] at hm
      cases hm
      exact ⟨rfl, rfl⟩
    | limited k _ hlimit hk =>
      have := le_of_halted hn hhalt hk
      have := hallows k hlimit
      omega
  | limited k _ hlimit hk =>
    cases h' with
    | halted m _ hm hhalt' hallows' =>
      have := le_of_halted hm hhalt' hk
      have := hallows' k hlimit
      omega
    | limited j _ hlimit' hj =>
      rw [hlimit] at hlimit'
      cases hlimit'
      rw [hk] at hj
      cases hj
      exact ⟨rfl, rfl⟩

/-- **The loop answers how the run ends.** -/
theorem toHalt_iff {limit : Option Nat} {result : Except RunError Outcome}
    (hsteps : c.steps = 0) :
    (∃ fuel, c.toHalt a limit fuel = some (result, c')) ↔ Ends a limit c result c' := by
  constructor
  · rintro ⟨fuel, h⟩
    exact ends_of_toHalt hsteps h
  · intro h
    obtain ⟨fuel, ⟨result', c''⟩, hfuel⟩ := toHalt_of_ends hsteps h
    obtain ⟨rfl, rfl⟩ := (ends_of_toHalt hsteps hfuel).unique h
    exact ⟨fuel, hfuel⟩

/-! ## 4. Words -/

/-- A word is refused unless the automaton takes it. -/
theorem wordError?_eq_none_iff {word : Word} : wordError? a word = none ↔ a.Takes word := by
  unfold wordError? Automaton.Takes
  cases word <;> simp

end Configuration

end TapeGrammar
