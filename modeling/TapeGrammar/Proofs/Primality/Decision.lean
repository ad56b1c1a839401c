import Mathlib.Data.Nat.Prime.Defs
import TapeGrammar.Proofs.Primality.Program

/-!
# The program decides primality

In each round over the prefix one cell is crossed out for every cell that is used, so after any number
of crossed cells the number of used ones is what is left of it after as many full rounds as possible
(`exists_rounds`).  When no cell is left, the whole prefix is used exactly if its length divides the
number.  Divisors are tried in increasing order from 2 on, so the first divisor that is found is
smaller than the number, unless the number is prime.
-/

namespace TapeGrammar.Primality

/-! ## 1. Rounds -/

/-- The number of used cells of a prefix of length `p` after `c` cells have been crossed out. -/
def used (p : Nat) : (c : Nat) → Nat
  | 0 => 0
  | c + 1 => if used p c = p then 1 else used p c + 1

variable {p c : Nat}

theorem used_succ : used p (c + 1) = if used p c = p then 1 else used p c + 1 := rfl

/-- The used cells are those of a last round, which may be full but not empty. -/
theorem exists_rounds (hp : 0 < p) (c : Nat) :
    ∃ rounds, c = p * rounds + used p c ∧ used p c ≤ p ∧ (0 < c → 0 < used p c) := by
  induction c with
  | zero => exact ⟨0, rfl, hp.le, fun h => h⟩
  | succ c ih =>
    obtain ⟨rounds, hc, hle, -⟩ := ih
    rw [used_succ]
    split
    · rename_i hfull
      refine ⟨rounds + 1, ?_, hp, fun _ => Nat.one_pos⟩
      rw [Nat.mul_succ]
      omega
    · exact ⟨rounds, by omega, by omega, fun _ => Nat.succ_pos _⟩

theorem used_le (hp : 0 < p) (c : Nat) : used p c ≤ p := by
  obtain ⟨rounds, -, hle, -⟩ := exists_rounds hp c
  exact hle

theorem used_pos (hp : 0 < p) (hc : 0 < c) : 0 < used p c := by
  obtain ⟨rounds, -, -, hpos⟩ := exists_rounds hp c
  exact hpos hc

/-- **The last round is full exactly if the length of the prefix divides the number of crossed
cells.** -/
theorem used_eq_iff (hp : 0 < p) (hc : 0 < c) : used p c = p ↔ p ∣ c := by
  obtain ⟨rounds, hrounds, hle, -⟩ := exists_rounds hp c
  constructor
  · intro hfull
    exact ⟨rounds + 1, by rw [Nat.mul_succ]; omega⟩
  · intro hdvd
    have hused : p ∣ used p c := (Nat.dvd_add_right (Dvd.intro rounds rfl)).mp (hrounds ▸ hdvd)
    exact Nat.le_antisymm hle (Nat.le_of_dvd (used_pos hp hc) hused)

/-! ## 2. One divisor -/

variable {a : Automaton} {left right : String} {origin : Int} {n : Nat}

/-- **As many cells are crossed out as there are**, and as many cells of the prefix are used. -/
theorem leads_crossed (hw : Follows a left right) (hp : 0 < p) (hc : p + c ≤ n) :
    Leads a origin n ⟨"seek", p, band left right n 0 p p⟩
      ⟨"seek", (p + c : Nat), band left right n (used p c) p (p + c : Nat)⟩ := by
  induction c with
  | zero => exact .refl _
  | succ c ih =>
    have hle := used_le hp c
    have hcross : Leads a origin n
        ⟨"seek", (p + c : Nat), band left right n (used p c) p (p + c : Nat)⟩
        ⟨"seek", (p + c : Nat) + 1, band left right n
          (if (used p c : Int) = p then 1 else used p c + 1) p ((p + c : Nat) + 1)⟩ :=
      leads_cross hw (by omega) (by omega) (by omega) (by omega) (by omega)
    have hused : (if (used p c : Int) = p then (1 : Int) else used p c + 1) = used p (c + 1) := by
      rw [used_succ]
      split <;> split <;> omega
    rw [hused] at hcross
    exact (ih (by omega)).trans hcross

/-! ## 3. All divisors -/

/-- A number without a divisor from 2 on that is smaller is prime. -/
theorem prime_of_least (hn : 2 ≤ n) (hleast : ∀ m, 2 ≤ m → m < n → ¬ m ∣ n) : n.Prime := by
  refine Nat.prime_def_lt.mpr ⟨hn, fun m hm hdvd => ?_⟩
  have hpos : 0 < m := Nat.pos_of_dvd_of_pos hdvd (by omega)
  by_contra hne
  exact hleast m (by omega) hm hdvd

/-- **From a prefix below which there is no divisor the machine comes to its decision.** -/
theorem leads_decision (hw : Follows a left right) (hp : 2 ≤ p) (hpn : p ≤ n)
    (hleast : ∀ m, 2 ≤ m → m < p → ¬ m ∣ n) :
    ∃ v, Leads a origin n ⟨"seek", p, band left right n 0 p p⟩ v ∧
      ((n.Prime ∧ v.state = "accept") ∨ (¬ n.Prime ∧ v.state = "reject")) := by
  induction hc : n - p generalizing p with
  | zero =>
    -- the prefix is the word
    obtain rfl : p = n := by omega
    exact ⟨_, leads_accept hw (by omega), .inl ⟨prime_of_least hp hleast, rfl⟩⟩
  | succ c ih =>
    have hcrossed : Leads a origin n ⟨"seek", p, band left right n 0 p p⟩
        ⟨"seek", n, band left right n (used p (n - p)) p n⟩ := by
      have hall : p + (n - p) = n := by omega
      have hround : Leads a origin n ⟨"seek", p, band left right n 0 p p⟩
          ⟨"seek", (p + (n - p) : Nat), band left right n (used p (n - p)) p (p + (n - p) : Nat)⟩ :=
        leads_crossed hw (by omega) (by omega)
      rwa [hall] at hround
    have hpos : 0 < used p (n - p) := used_pos (by omega) (by omega)
    have hdvd_iff : used p (n - p) = p ↔ p ∣ n := by
      rw [used_eq_iff (by omega) (by omega), Nat.dvd_sub_self_right]
      exact or_iff_left (by omega)
    by_cases hdvd : p ∣ n
    · -- a divisor is found
      rw [hdvd_iff.mpr hdvd] at hcrossed
      refine ⟨_, hcrossed.trans (leads_reject hw (by omega) (by omega)), .inr ⟨fun hprime => ?_, rfl⟩⟩
      rcases hprime.eq_one_or_self_of_dvd p hdvd with h | h <;> omega
    · -- the next prefix
      have hpart : used p (n - p) < p :=
        lt_of_le_of_ne (used_le (by omega) _) fun h => hdvd (hdvd_iff.mp h)
      have hextend := hcrossed.trans (leads_extend hw (by omega) (by omega) (by omega))
      obtain ⟨v, hv, hdecision⟩ := ih (p := p + 1) (by omega) (by omega) (fun m hm hmp => by
        rcases Nat.lt_succ_iff_lt_or_eq.mp hmp with h | rfl
        · exact hleast m hm h
        · exact hdvd) (by omega)
      exact ⟨v, hextend.trans hv, hdecision⟩

/-! ## 4. From the start -/

/-- An automaton that makes the moves of the program, and halts where the program says nothing. -/
structure Decider (a : Automaton) (left right : String) : Prop where
  follows : Follows a left right
  final_iff : ∀ state, a.isFinal state = true ↔ state = "accept"
  accept_halts : ∀ read, a.move? "accept" read = none
  reject_halts : ∀ read, a.move? "reject" read = none
  /-- The number one has no second digit. -/
  short_halts : a.move? "q1" right = none

/-- **On the first digit of a number the machine begins to decide whether the number is prime.** -/
theorem Decider.leads (hd : Decider a left right) (hn : 1 ≤ n) :
    ∃ v, Leads a origin n ⟨"q0", 0, band left right n 0 0 0⟩ v ∧
      a.move? v.state (v.row v.head) = none ∧ (a.isFinal v.state = true ↔ n.Prime) := by
  have hfirst : Leads a origin n ⟨"q0", 0, band left right n 0 0 0⟩
      ⟨"q1", 1, band left right n 0 1 1⟩ := by
    refine .right ?_ (fun j hj => ?_) (by omega) (by omega)
    · rw [band_digit (Int.le_refl 0) (Int.le_refl 0) (Int.le_refl 0) (Int.le_refl 0) (by omega),
        band_divisor (Int.le_refl 0) (Int.le_refl 0) (by omega)]
      exact hd.follows (by simp [program])
    · exact band_congr Iff.rfl (by omega) (by omega)
  rcases Nat.eq_or_lt_of_le hn with rfl | hn
  · refine ⟨_, hfirst, ?_, ?_⟩
    · show a.move? "q1" (band left right 1 0 1 1 1) = none
      rw [band_right (by omega) (by omega) (Int.le_refl 1) (Int.le_refl 1) (Int.le_refl 1)]
      exact hd.short_halts
    · rw [hd.final_iff]
      simp [Nat.not_prime_one]
  · have hsecond : Leads a origin n ⟨"q1", 1, band left right n 0 1 1⟩
        ⟨"seek", 2, band left right n 0 2 2⟩ := by
      refine .right ?_ (fun j hj => ?_) (by omega) (by omega)
      · rw [band_digit (by omega) (by omega) (Int.le_refl 1) (Int.le_refl 1) (by omega),
          band_divisor (by omega) (by omega) (by omega)]
        exact hd.follows (by simp [program])
      · exact band_congr Iff.rfl (by omega) (by omega)
    -- no number is smaller than the first divisor and a divisor itself
    obtain ⟨v, hv, hdecision⟩ :=
      leads_decision (a := a) (n := n) (p := 2) hd.follows (Nat.le_refl 2) hn
        fun m hm hlt => absurd hlt (by omega)
    refine ⟨v, hfirst.trans (hsecond.trans hv), ?_, ?_⟩
    · rcases hdecision with ⟨-, hstate⟩ | ⟨-, hstate⟩
      · rw [hstate]
        exact hd.accept_halts _
      · rw [hstate]
        exact hd.reject_halts _
    · rw [hd.final_iff]
      rcases hdecision with ⟨hprime, hstate⟩ | ⟨hprime, hstate⟩ <;> simp [hprime, hstate]

/-- **A machine that shows the number halts**, in a final state exactly if the number is prime, and
its head never leaves the number and the two cells beside it. -/
theorem Decider.halts {v₀ : View} {c : Configuration} (hd : Decider a left right) (hn : 1 ≤ n)
    (hstart : Leads a origin n v₀ ⟨"q0", 0, band left right n 0 0 0⟩) (hc : Shows a origin n c v₀) :
    ∃ steps c', Configuration.after? a steps c = some c' ∧ c'.pending? a = none ∧
      (a.isFinal c'.state = true ↔ n.Prime) ∧
      ∀ m c₁, Configuration.after? a m c = some c₁ → Inside origin n c₁ := by
  obtain ⟨v, hv, hhalt, hfinal⟩ :
      ∃ v, Leads a origin n ⟨"q0", 0, band left right n 0 0 0⟩ v ∧
        a.move? v.state (v.row v.head) = none ∧ (a.isFinal v.state = true ↔ n.Prime) := hd.leads hn
  obtain ⟨c', htrail, hc'⟩ := hstart.trans hv c hc
  obtain ⟨steps, hsteps, hinside⟩ := htrail.after?
  have hpending : c'.pending? a = none := hc'.pending?_eq hhalt
  refine ⟨steps, c', hsteps, hpending, by rw [hc'.state_eq, hfinal], fun m c₁ hm => ?_⟩
  exact hinside m c₁ (Configuration.le_of_halted hsteps hpending hm) hm

end TapeGrammar.Primality
