import TapeGrammar.Proofs.Primality.Check

/-!
# The two machines that decide primality

The Turing machine and the bounded automaton of the catalog run the same program, but one blank of
the former is in the place of both markers of the latter.  That is no loss: a state in which the
program moves to the left meets the left end of the word only, and every other state the right end
(`sided_program`).  So the side is known whenever a blank is read.

Two configurations are TWINS if they show the same state, the same position and the same word.  After
the bounded automaton has stepped off its marker the two are twins, and they make the same moves from
then on: a move that one of them makes can be made by the other, and leads to twins again.
-/

namespace TapeGrammar.Primality

open TapeGrammar.Configuration (after?)

variable {n : Nat} {c c' : Configuration} {v : View} {entry : Situation × Move} {move : Move}

/-! ## 1. Ends of the word -/

/-- The states that the program enters with a move to the left. -/
def leftward : List String := ["back", "reset", "check", "rewind", "settle"]

/-- The Turing machine has blanks in the place of the markers. -/
def unmarked (symbol : String) : String := if symbol = "@" ∨ symbol = "$" then "B" else symbol

/-- The entry of the Turing machine in the place of one of the bounded automaton. -/
def unmarkedEntry : Situation × Move → Situation × Move
  | (at_, move) =>
    (⟨at_.state, unmarked at_.read⟩, ⟨move.next, unmarked move.write, move.direction⟩)

/-- An entry of the bounded automaton respects the ends of the word: the state that it enters says
where it comes from, and each marker is met by the states that come from the other side, which write
it back and return. -/
structure Sided (entry : Situation × Move) : Prop where
  next : entry.2.next ∈ leftward ↔ entry.2.direction = .left
  before : entry.1.read = "@" → entry.1.state ∈ leftward ∧ entry.2.direction = .right
  behind : entry.1.read = "$" → entry.1.state ∉ leftward ∧ entry.2.direction = .left
  before_iff : entry.2.write = "@" ↔ entry.1.read = "@"
  behind_iff : entry.2.write = "$" ↔ entry.1.read = "$"
  read_ne : entry.1.read ≠ "B"
  write_ne : entry.2.write ≠ "B"

instance (entry : Situation × Move) : Decidable (Sided entry) :=
  decidable_of_iff ((entry.2.next ∈ leftward ↔ entry.2.direction = .left) ∧
    (entry.1.read = "@" → entry.1.state ∈ leftward ∧ entry.2.direction = .right) ∧
    (entry.1.read = "$" → entry.1.state ∉ leftward ∧ entry.2.direction = .left) ∧
    (entry.2.write = "@" ↔ entry.1.read = "@") ∧ (entry.2.write = "$" ↔ entry.1.read = "$") ∧
    entry.1.read ≠ "B" ∧ entry.2.write ≠ "B")
    ⟨fun ⟨h₁, h₂, h₃, h₄, h₅, h₆, h₇⟩ => ⟨h₁, h₂, h₃, h₄, h₅, h₆, h₇⟩,
      fun ⟨h₁, h₂, h₃, h₄, h₅, h₆, h₇⟩ => ⟨h₁, h₂, h₃, h₄, h₅, h₆, h₇⟩⟩

/-- **The program respects the ends of the word.** -/
theorem sided_program : ∀ entry ∈ program "@" "$", Sided entry := by
  decide +kernel

/-- The Turing machine runs the program of the bounded automaton without markers. -/
theorem program_unmarked : program "B" "B" = (program "@" "$").map unmarkedEntry := by
  decide +kernel

/-! ## 2. Twins -/

/-- Both machines show the same state, position and word.  What is behind an end of the word can be
told from the side on which the state meets it. -/
structure Twins (n : Nat) (c c' : Configuration) (v : View) : Prop where
  bounded : Shows (machine .bounded) 1 n c' v
  unbounded : Shows (machine .unbounded) 0 n c ⟨v.state, v.head, fun i => unmarked (v.row i)⟩
  before_iff : ∀ i : Int, -1 ≤ i → i ≤ n → (v.row i = "@" ↔ i = -1)
  behind_iff : ∀ i : Int, -1 ≤ i → i ≤ n → (v.row i = "$" ↔ i = n)
  row_ne : ∀ i : Int, -1 ≤ i → i ≤ n → v.row i ≠ "B"
  lt_of_leftward : v.state ∈ leftward → v.head < n
  nonneg_of_not_leftward : v.state ∉ leftward → 0 ≤ v.head

namespace Twins

theorem head_bounds (h : Twins n c c' v) : -1 ≤ v.head ∧ v.head ≤ n := by
  have hinside := h.unbounded.inside
  have hhead := h.unbounded.head_eq
  simp only [Inside] at *
  omega

/-- A move of the bounded automaton is one of the program. -/
theorem mem_program (h : Twins n c c' v)
    (hmove : (machine .bounded).move? v.state (v.row v.head) = some move) :
    (⟨v.state, v.row v.head⟩, move) ∈ program "@" "$" := by
  rcases List.mem_cons.mp (move?_iff.mp hmove) with hentrance | hprogram
  · -- the entrance is for the marker before the word, where its state does not belong
    obtain ⟨hsituation, -⟩ := Prod.mk.inj hentrance
    obtain ⟨hstate, hread⟩ := Situation.mk.inj hsituation
    have hhead := (h.before_iff _ h.head_bounds.1 h.head_bounds.2).mp hread
    have hpos := h.nonneg_of_not_leftward (by rw [hstate]; decide)
    omega
  · exact hprogram

/-- A symbol that two entries for the state of twins could be about is the one that is read. -/
theorem read_unique (h : Twins n c c' v) (hentry : entry ∈ program "@" "$")
    (hstate : entry.1.state = v.state) (hread : unmarked entry.1.read = unmarked (v.row v.head)) :
    entry.1.read = v.row v.head := by
  have hsided := sided_program entry hentry
  have hhead := h.head_bounds
  have hbefore := h.before_iff v.head hhead.1 hhead.2
  have hbehind := h.behind_iff v.head hhead.1 hhead.2
  have hne := h.row_ne v.head hhead.1 hhead.2
  have hne' := hsided.read_ne
  have hleft := hsided.before
  have hright := hsided.behind
  rw [hstate] at hleft hright
  have hlt := h.lt_of_leftward
  have hpos := h.nonneg_of_not_leftward
  unfold unmarked at hread
  split at hread <;> split at hread
  · -- both are markers, and the state decides which
    rename_i hmarker hmarker'
    rcases hmarker with hread | hread <;> rcases hmarker' with hrow | hrow
    · rw [hread, hrow]
    · have := hlt (hleft hread).1
      have := hbehind.mp hrow
      omega
    · have := hpos (hright hread).1
      have := hbefore.mp hrow
      omega
    · rw [hread, hrow]
  · exact absurd hread.symm hne
  · exact absurd hread hne'
  · exact hread

/-- **Twins have the same moves.** -/
theorem move?_iff_unmarked (h : Twins n c c' v) :
    (machine .unbounded).move? v.state (unmarked (v.row v.head)) = some move ↔
      ∃ move', (machine .bounded).move? v.state (v.row v.head) = some move' ∧
        move = ⟨move'.next, unmarked move'.write, move'.direction⟩ := by
  have hlayout : (layout .unbounded).entries = (program "@" "$").map unmarkedEntry :=
    program_unmarked
  rw [move?_iff, hlayout, List.mem_map]
  constructor
  · rintro ⟨⟨at_, move'⟩, hentry, hsame⟩
    obtain ⟨hsituation, rfl⟩ := Prod.mk.inj hsame
    obtain ⟨hstate, hread⟩ := Situation.mk.inj hsituation
    have hexact : at_ = ⟨v.state, v.row v.head⟩ := by
      rw [← h.read_unique hentry hstate hread, ← hstate]
    refine ⟨move', move?_iff.mpr (List.mem_cons_of_mem entrance ?_), rfl⟩
    rwa [← hexact]
  · rintro ⟨move', hmove', rfl⟩
    exact ⟨_, h.mem_program hmove', rfl⟩

/-- A move that one of them makes can be made by the other. -/
theorem pending?_iff (h : Twins n c c' v) :
    c.pending? (machine .unbounded) = some move ↔
      ∃ move', c'.pending? (machine .bounded) = some move' ∧
        move = ⟨move'.next, unmarked move'.write, move'.direction⟩ := by
  rw [h.unbounded.pending?_eq rfl, h.bounded.pending?_eq rfl]
  exact h.move?_iff_unmarked

/-- The head stays on the word and the cells beside it, on the side where the next state belongs. -/
theorem next_head (h : Twins n c c' v)
    (hmove : (⟨v.state, v.row v.head⟩, move) ∈ program "@" "$") {k : Int}
    (hk : k = match move.direction with
      | .left => v.head - 1
      | .right => v.head + 1) :
    (-1 ≤ k ∧ k ≤ n) ∧ (move.next ∈ leftward → k < n) ∧ (move.next ∉ leftward → 0 ≤ k) := by
  have hsided := sided_program _ hmove
  obtain ⟨hfirst, hlast⟩ := h.head_bounds
  cases hdirection : move.direction with
  | left =>
    have hnext : move.next ∈ leftward := hsided.next.mpr hdirection
    have hhead : v.head ≠ -1 := fun hhead => by
      have hright := (hsided.before ((h.before_iff v.head hfirst hlast).mpr hhead)).2
      rw [hdirection] at hright
      cases hright
    rw [hdirection] at hk
    simp only at hk
    exact ⟨by omega, fun _ => by omega, fun hother => absurd hnext hother⟩
  | right =>
    have hnext : move.next ∉ leftward := fun hnext => by
      have hleft := hsided.next.mp hnext
      rw [hdirection] at hleft
      cases hleft
    have hhead : v.head ≠ n := fun hhead => by
      have hleft := (hsided.behind ((h.behind_iff v.head hfirst hlast).mpr hhead)).2
      rw [hdirection] at hleft
      cases hleft
    rw [hdirection] at hk
    simp only at hk
    exact ⟨by omega, fun hother => absurd hother hnext, fun _ => by omega⟩

/-- **A move leads twins to twins.** -/
theorem apply (h : Twins n c c' v) (hmove : c'.pending? (machine .bounded) = some move) :
    ∃ v', Twins n (c.apply (machine .unbounded)
        ⟨move.next, unmarked move.write, move.direction⟩) (c'.apply (machine .bounded) move) v' := by
  have hread : (machine .bounded).move? v.state (v.row v.head) = some move := by
    rwa [h.bounded.pending?_eq rfl] at hmove
  have hread' := h.move?_iff_unmarked.mpr ⟨move, hread, rfl⟩
  have hmem := h.mem_program hread
  have hsided := sided_program _ hmem
  let k := match move.direction with
    | .left => v.head - 1
    | .right => v.head + 1
  obtain ⟨hk, hleft, hright⟩ := h.next_head hmem (rfl : k = _)
  let row : Int → String := fun i => if i = v.head then move.write else v.row i
  have hwritten : row v.head = move.write := if_pos rfl
  have hsame : ∀ i, i ≠ v.head → row i = v.row i := fun i hi => if_neg hi
  -- a marker is written where it was read, and nowhere else
  have hmarker : ∀ i marker, (move.write = marker ↔ v.row v.head = marker) →
      (row i = marker ↔ v.row i = marker) := by
    intro i marker hiff
    by_cases hi : i = v.head
    · rw [hi, hwritten, hiff]
    · rw [hsame i hi]
  have hname : ∀ i : Int, -1 ≤ i → i ≤ n → row i ≠ "B" := by
    intro i hi hin
    by_cases hhead : i = v.head
    · rw [hhead, hwritten]
      exact hsided.write_ne
    · rw [hsame i hhead]
      exact h.row_ne i hi hin
  refine ⟨⟨move.next, k, row⟩, h.bounded.apply hread rfl hk hwritten hsame,
    h.unbounded.apply hread' rfl hk (congrArg unmarked hwritten)
      (fun i hi => congrArg unmarked (hsame i hi)), fun i hi hin => ?_, fun i hi hin => ?_,
    hname, hleft, hright⟩
  · rw [← h.before_iff i hi hin]
    exact hmarker i "@" hsided.before_iff
  · rw [← h.behind_iff i hi hin]
    exact hmarker i "$" hsided.behind_iff

/-! ## 3. What twins have in common -/

theorem state_eq (h : Twins n c c' v) : c'.state = c.state := by
  rw [h.bounded.state_eq, h.unbounded.state_eq]

theorem head_eq (h : Twins n c c' v) : c.head = v.head ∧ c'.head = c.head + 1 := by
  have hbounded := h.bounded.head_eq
  have hunbounded := h.unbounded.head_eq
  simp only at hunbounded
  omega

/-- The cells of the word hold the same symbols. -/
theorem cells_eq (h : Twins n c c' v) {i : Nat} (hi : i < n) : ∃ symbol,
    c.cell? (machine .unbounded) i = some symbol ∧
      c'.cell? (machine .bounded) (i + 1) = some symbol := by
  have hunbounded : c.cell? (machine .unbounded) (0 + i) = some (unmarked (v.row i)) :=
    h.unbounded.cells i (by omega) (by omega)
  have hbounded := h.bounded.cells i (by omega) (by omega)
  have hbefore : v.row i ≠ "@" := fun hrow => by
    have := (h.before_iff i (by omega) (by omega)).mp hrow
    omega
  have hbehind : v.row i ≠ "$" := fun hrow => by
    have := (h.behind_iff i (by omega) (by omega)).mp hrow
    omega
  have hletter : unmarked (v.row i) = v.row i := if_neg (not_or.mpr ⟨hbefore, hbehind⟩)
  refine ⟨v.row i, ?_, ?_⟩
  · rwa [Int.zero_add, hletter] at hunbounded
  · rwa [Int.add_comm] at hbounded

/-- **The blank is read exactly where a marker is**, the left one before the word and the right one
behind it. -/
theorem reads (h : Twins n c c' v) :
    (c'.read? (machine .bounded) = some "@" ↔ c.head = -1) ∧
      (c'.read? (machine .bounded) = some "$" ↔ c.head = n) ∧
      (c.read? (machine .unbounded) = some "B" ↔ c.head = -1 ∨ c.head = n) := by
  obtain ⟨hfirst, hlast⟩ := h.head_bounds
  have hbefore := h.before_iff v.head hfirst hlast
  have hbehind := h.behind_iff v.head hfirst hlast
  rw [h.head_eq.1, h.bounded.read?_eq, h.unbounded.read?_eq, Option.some.injEq, Option.some.injEq,
    Option.some.injEq, ← hbefore, ← hbehind]
  refine ⟨Iff.rfl, Iff.rfl, fun hblank => ?_, fun hmarker => if_pos hmarker⟩
  by_contra hletter
  have hsame : unmarked (v.row v.head) = v.row v.head := if_neg hletter
  exact h.row_ne v.head hfirst hlast (hsame.symm.trans hblank)

end Twins

/-! ## 4. The two runs -/

theorem unmarked_band {n k p e i : Int} :
    unmarked (band "@" "$" n k p e i) = band "B" "B" n k p e i := by
  unfold band
  split_ifs <;> rfl

/-- The markers in the row of a number that the program has not changed yet. -/
theorem band_markers {i : Int} (hi : -1 ≤ i) (hin : i ≤ n) :
    (band "@" "$" n 0 0 0 i = "@" ↔ i = -1) ∧ (band "@" "$" n 0 0 0 i = "$" ↔ i = n) ∧
      band "@" "$" n 0 0 0 i ≠ "B" := by
  obtain rfl | ⟨m, rfl⟩ : i = -1 ∨ ∃ m : Nat, i = m := by
    by_cases h : i = -1
    · exact .inl h
    · exact .inr ⟨i.toNat, by omega⟩
  · rw [band_left (by decide)]
    refine ⟨by simp, ?_, by decide⟩
    simp only [String.reduceEq, false_iff]
    omega
  · rw [band_number]
    split
    · refine ⟨?_, ?_, by decide⟩ <;> (simp only [String.reduceEq, false_iff]; omega)
    · refine ⟨?_, ?_, by decide⟩
      · simp only [String.reduceEq, false_iff]
        omega
      · simp only [true_iff]
        omega

/-- Before its first move, the Turing machine is a twin of the bounded automaton behind its first. -/
theorem twins_start (hn : 1 ≤ n) : ∃ c' v,
    after? (machine .bounded) 1 (.ofWord (machine .bounded) (Unary.word n)) = some c' ∧
      Twins n (.ofWord (machine .unbounded) (Unary.word n)) c' v := by
  have hfirst : Shows (machine .bounded) 1 n (.ofWord (machine .bounded) (Unary.word n))
      ⟨"start", -1, band "@" "$" n 0 0 0⟩ := shows_firstView n .bounded
  have hentrance : (machine .bounded).move? "start" (band "@" "$" n 0 0 0 (-1)) =
      some ⟨"q0", "@", .right⟩ := move?_iff.mpr List.mem_cons_self
  have hunbounded : Shows (machine .unbounded) 0 n (.ofWord (machine .unbounded) (Unary.word n))
      ⟨"q0", 0, fun i => unmarked (band "@" "$" n 0 0 0 i)⟩ := by
    simp only [unmarked_band]
    exact shows_firstView n .unbounded
  refine ⟨_, ⟨"q0", 0, band "@" "$" n 0 0 0⟩,
    Configuration.after?_succ rfl (hfirst.pending?_eq hentrance),
    hfirst.apply hentrance rfl (by omega) (band_left (by decide)) fun _ _ => rfl, hunbounded,
    fun i hi hin => (band_markers hi hin).1, fun i hi hin => (band_markers hi hin).2.1,
    fun i hi hin => (band_markers hi hin).2.2, fun hleft => absurd hleft (by decide : "q0" ∉ leftward),
    fun _ => Int.le_refl 0⟩

/-- **As many moves, and one more of the bounded automaton, lead to twins.** -/
theorem twins_after? (hn : 1 ≤ n) (k : Nat) :
    (∀ c, after? (machine .unbounded) k (.ofWord (machine .unbounded) (Unary.word n)) = some c →
      ∃ c' v, after? (machine .bounded) (k + 1) (.ofWord (machine .bounded) (Unary.word n)) =
        some c' ∧ Twins n c c' v) ∧
    ∀ c', after? (machine .bounded) (k + 1) (.ofWord (machine .bounded) (Unary.word n)) = some c' →
      ∃ c v, after? (machine .unbounded) k (.ofWord (machine .unbounded) (Unary.word n)) = some c ∧
        Twins n c c' v := by
  induction k with
  | zero =>
    obtain ⟨c₀, v, hc₀, htwins⟩ := twins_start hn
    refine ⟨fun c hc => ?_, fun c' hc' => ?_⟩
    · cases hc
      exact ⟨c₀, v, hc₀, htwins⟩
    · obtain rfl : c₀ = c' := Option.some.inj (hc₀.symm.trans hc')
      exact ⟨_, v, rfl, htwins⟩
  | succ k ih =>
    refine ⟨fun c hc => ?_, fun c' hc' => ?_⟩
    · obtain ⟨c₁, move, hc₁, hmove, rfl⟩ := Configuration.after?_succ_iff.mp hc
      obtain ⟨c₁', v, hc₁', htwins⟩ := ih.1 c₁ hc₁
      obtain ⟨move', hmove', rfl⟩ := htwins.pending?_iff.mp hmove
      obtain ⟨v', htwins'⟩ := htwins.apply hmove'
      exact ⟨_, v', Configuration.after?_succ hc₁' hmove', htwins'⟩
    · obtain ⟨c₁', move', hc₁', hmove', rfl⟩ := Configuration.after?_succ_iff.mp hc'
      obtain ⟨c₁, v, hc₁, htwins⟩ := ih.2 c₁' hc₁'
      obtain ⟨v', htwins'⟩ := htwins.apply hmove'
      have hmove := htwins.pending?_iff.mpr ⟨move', hmove', rfl⟩
      exact ⟨_, v', Configuration.after?_succ hc₁ hmove, htwins'⟩

/-- **The machines of the catalog run in lock-step.**  On a number, the Turing machine makes so many
moves exactly if the bounded automaton makes one more.  Both are in the same state then, the bounded
head is one position further, the cells of the word hold the same symbols, and the blank is read
exactly where a marker is.  So they halt in the same state and agree on the number, and the bounded
automaton takes exactly one step more. -/
theorem machines_in_lockStep : ∃ tm lba,
    Catalog.automaton Catalog.primality .unbounded = .ok tm ∧
    Catalog.automaton Catalog.primality .bounded = .ok lba ∧
    tm.boundary = .blank "B" ∧ lba.boundary = .markers "@" "$" ∧ ∀ n, 1 ≤ n →
      (∀ k, (∃ c, after? tm k (.ofWord tm (Unary.word n)) = some c) ↔
        ∃ c', after? lba (k + 1) (.ofWord lba (Unary.word n)) = some c') ∧
      (∀ k c c', after? tm k (.ofWord tm (Unary.word n)) = some c →
        after? lba (k + 1) (.ofWord lba (Unary.word n)) = some c' →
        c'.state = c.state ∧ c'.head = c.head + 1 ∧
        (∀ i : Nat, i < n → ∃ symbol, c.cell? tm i = some symbol ∧
          c'.cell? lba (i + 1) = some symbol) ∧
        (c'.read? lba = some "@" ↔ c.head = -1) ∧ (c'.read? lba = some "$" ↔ c.head = n) ∧
        (c.read? tm = some "B" ↔ c.head = -1 ∨ c.head = n)) ∧
      ∃ outcome outcome', tm.RunsTo none (Unary.word n) (.ok outcome) ∧
        lba.RunsTo none (Unary.word n) (.ok outcome') ∧ outcome'.state = outcome.state ∧
        outcome'.accepted = outcome.accepted ∧ outcome'.steps = outcome.steps + 1 := by
  refine ⟨machine .unbounded, machine .bounded, automaton_primality .unbounded,
    automaton_primality .bounded, rfl, rfl, fun n hn => ⟨fun k => ⟨?_, ?_⟩, ?_, ?_⟩⟩
  · rintro ⟨c, hc⟩
    obtain ⟨c', v, hc', -⟩ := (twins_after? hn k).1 c hc
    exact ⟨c', hc'⟩
  · rintro ⟨c', hc'⟩
    obtain ⟨c, v, hc, -⟩ := (twins_after? hn k).2 c' hc'
    exact ⟨c, hc⟩
  · intro k c c' hc hc'
    obtain ⟨c₁, v, hc₁, htwins⟩ := (twins_after? hn k).1 c hc
    obtain rfl : c₁ = c' := Option.some.inj (hc₁.symm.trans hc')
    exact ⟨htwins.state_eq, htwins.head_eq.2, fun i hi => htwins.cells_eq hi, htwins.reads⟩
  · obtain ⟨k, c, hc, hhalt, -⟩ := halts_machine .unbounded hn
    obtain ⟨c', v, hc', htwins⟩ := (twins_after? hn k).1 c hc
    have hhalt' : c'.pending? (machine .bounded) = none := by
      refine Option.eq_none_iff_forall_ne_some.mpr fun move hmove => ?_
      have hpending := htwins.pending?_iff.mpr ⟨move, hmove, rfl⟩
      rw [hhalt] at hpending
      cases hpending
    have hsteps := Configuration.steps_after? hc
    have hsteps' := Configuration.steps_after? hc'
    rw [Configuration.steps_ofWord] at hsteps hsteps'
    refine ⟨c.outcome (machine .unbounded), c'.outcome (machine .bounded), ?_, ?_,
      htwins.state_eq, ?_, ?_⟩
    · exact (Automaton.runsTo_iff (takes_word .unbounded hn)).mpr
        ⟨c, .halted k c hc hhalt fun _ hlimit => nomatch hlimit⟩
    · exact (Automaton.runsTo_iff (takes_word .bounded hn)).mpr
        ⟨c', .halted (k + 1) c' hc' hhalt' fun _ hlimit => nomatch hlimit⟩
    · show (machine .bounded).isFinal c'.state = (machine .unbounded).isFinal c.state
      rw [Bool.eq_iff_iff, (decider_machine .bounded).final_iff,
        (decider_machine .unbounded).final_iff, htwins.state_eq]
    · show c'.steps = c.steps + 1
      omega

/-- On the number three, the bounded automaton is behind after two moves of the Turing machine, and
when both have halted it has taken one step more. -/
theorem lockStep_on_three : ∃ tm lba,
    Catalog.automaton Catalog.primality .unbounded = .ok tm ∧
    Catalog.automaton Catalog.primality .bounded = .ok lba ∧
    (∃ c c', after? tm 2 (.ofWord tm (Unary.word 3)) = some c ∧
      after? lba 3 (.ofWord lba (Unary.word 3)) = some c' ∧ c'.state = c.state ∧
      c'.head = c.head + 1) ∧
    ∃ outcome outcome', tm.RunsTo none (Unary.word 3) (.ok outcome) ∧
      lba.RunsTo none (Unary.word 3) (.ok outcome') ∧ outcome'.steps = outcome.steps + 1 := by
  obtain ⟨tm, lba, htm, hlba, -, -, hlock⟩ := machines_in_lockStep
  obtain ⟨hsteps, htwins, outcome, outcome', hrun, hrun', -, -, hcount⟩ := hlock 3 (by decide)
  obtain rfl : machine .unbounded = tm := Except.ok.inj ((automaton_primality _).symm.trans htm)
  obtain ⟨c, hc⟩ : ∃ c, after? (machine .unbounded) 2
      (.ofWord (machine .unbounded) (Unary.word 3)) = some c :=
    Option.isSome_iff_exists.mp (by decide +kernel)
  obtain ⟨c', hc'⟩ := (hsteps 2).mp ⟨c, hc⟩
  obtain ⟨hstate, hhead, -⟩ := htwins 2 c c' hc hc'
  exact ⟨_, lba, htm, hlba, ⟨c, c', hc, hc', hstate, hhead⟩, outcome, outcome', hrun, hrun', hcount⟩

end TapeGrammar.Primality
