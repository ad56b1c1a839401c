import Mathlib.Tactic.Ring
import TapeGrammar.Proofs.Primality.Machines
import TapeGrammar.Proofs.Unambiguous

/-!
# The sizes of the tables

A table drops a production that is inserted twice, so it has as many productions as its enumeration has
combinations only if no two combinations make the same production.  For a well-formed automaton that is so
(`sizes_ofAutomaton`).

Every enumeration is made by parts: one for each entry of the transition function or for each letter, and
within a part one production for each combination of symbols and flags.  So it repeats nothing if a
production shows its part and its combination, and its length is a product, or a sum of two where the
parts are of two sizes.
-/

namespace TapeGrammar

/-! ## 1. Enumerations by parts -/

section

variable {α β γ δ : Type} {l : List α} {m : List β} {n : List γ} {f : α → List β} {i j : Nat}

/-- **An enumeration by parts repeats nothing** if no part does and no two parts share anything. -/
theorem nodup_flatMap_of_unique (hl : l.Nodup) (hf : ∀ x ∈ l, (f x).Nodup)
    (hunique : ∀ x ∈ l, ∀ y ∈ l, ∀ p, p ∈ f x → p ∈ f y → x = y) : (l.flatMap f).Nodup := by
  refine List.nodup_flatMap.mpr ⟨hf, hl.imp_of_mem ?_⟩
  intro x y hx hy hne p hp hp'
  exact hne (hunique x hx y hy p hp hp')

/-- Pairs that are shown by what is made of them. -/
theorem nodup_pairs {f : α → β → δ} (hl : l.Nodup) (hm : m.Nodup)
    (hinj : ∀ x ∈ l, ∀ x' ∈ l, ∀ y y', f x y = f x' y' → x = x' ∧ y = y') :
    (l.flatMap fun x => m.map (f x)).Nodup := by
  refine nodup_flatMap_of_unique hl (fun x hx => ?_) ?_
  · exact hm.map fun y y' h => (hinj x hx x hx y y' h).2
  · intro x hx x' hx' p hp hp'
    obtain ⟨y, -, rfl⟩ := List.mem_map.mp hp
    obtain ⟨y', -, h⟩ := List.mem_map.mp hp'
    exact (hinj x' hx' x hx y' y h).1.symm

/-- Triples that are shown by what is made of them. -/
theorem nodup_triples {f : α → β → γ → δ} (hl : l.Nodup) (hm : m.Nodup) (hn : n.Nodup)
    (hinj : ∀ x ∈ l, ∀ x' ∈ l, ∀ y ∈ m, ∀ y' ∈ m, ∀ z z', f x y z = f x' y' z' →
      x = x' ∧ y = y' ∧ z = z') :
    (l.flatMap fun x => m.flatMap fun y => n.map (f x y)).Nodup := by
  refine nodup_flatMap_of_unique hl (fun x hx => ?_) ?_
  · exact nodup_pairs hm hn fun y hy y' hy' z z' h => (hinj x hx x hx y hy y' hy' z z' h).2
  · intro x hx x' hx' p hp hp'
    simp only [List.mem_flatMap, List.mem_map] at hp hp'
    obtain ⟨y, hy, z, -, rfl⟩ := hp
    obtain ⟨y', hy', z', -, h⟩ := hp'
    exact (hinj x' hx' x hx y' hy' y hy z' z h).1.symm

/-- Parts of one size. -/
theorem length_flatMap_of_const (hf : ∀ x ∈ l, (f x).length = i) :
    (l.flatMap f).length = l.length * i := by
  induction l with
  | nil => simp
  | cons x l ih =>
    rw [List.flatMap_cons, List.length_append, hf x List.mem_cons_self,
      ih fun y hy => hf y (List.mem_cons_of_mem _ hy), List.length_cons, Nat.succ_mul, Nat.add_comm]

/-- Parts of two sizes. -/
theorem length_flatMap_of_split (b : α → Bool) (hi : ∀ x ∈ l, b x = true → (f x).length = i)
    (hj : ∀ x ∈ l, b x = false → (f x).length = j) :
    (l.flatMap f).length = l.countP b * i + (l.countP fun x => !b x) * j := by
  induction l with
  | nil => simp
  | cons x l ih =>
    have hrest := ih (fun y hy => hi y (List.mem_cons_of_mem _ hy))
      (fun y hy => hj y (List.mem_cons_of_mem _ hy))
    rw [List.flatMap_cons, List.length_append, hrest, List.countP_cons, List.countP_cons]
    cases hb : b x with
    | true =>
      rw [hi x List.mem_cons_self hb, if_pos rfl, if_neg (by simp)]
      ring
    | false =>
      rw [hj x List.mem_cons_self hb, if_neg (by simp), if_pos (by simp)]
      ring

theorem length_pairs {f : α → β → δ} :
    (l.flatMap fun x => m.map (f x)).length = l.length * m.length :=
  length_flatMap_of_const fun _ _ => List.length_map _

theorem length_triples {f : α → β → γ → δ} :
    (l.flatMap fun x => m.flatMap fun y => n.map (f x y)).length =
      l.length * (m.length * n.length) :=
  length_flatMap_of_const fun _ _ => length_pairs

end

/-! ## 2. What is enumerated over -/

namespace Automaton

variable {a : Automaton} {entry entry' : Situation × Move}

/-- The number of entries whose moves go in a direction. -/
def entriesTo (a : Automaton) (direction : Direction) : Nat :=
  a.entries.countP fun (_, move) => move.direction = direction

/-- The number of entries that read a marker. -/
def markerEntries (a : Automaton) : Nat := a.entries.countP fun (at_, _) => a.isMarker at_.read

/-- The number of entries that read anything else. -/
def cellEntries (a : Automaton) : Nat := a.entries.countP fun (at_, _) => !a.isMarker at_.read

theorem nodup_toList (labels : LabelSet) : labels.toList.Nodup := by
  refine Std.ExtTreeSet.distinct_toList.imp fun h heq => ?_
  exact h (heq ▸ Std.ReflOrd.compare_self)

theorem nodup_inputs (a : Automaton) : a.inputs.Nodup := (nodup_toList a.alphabet).filter _

theorem nodup_cells (a : Automaton) : a.cells.Nodup := (nodup_toList a.tapeAlphabet).filter _

theorem nodup_entries (a : Automaton) : a.entries.Nodup := by
  refine Std.ExtTreeMap.distinct_keys_toList.imp fun h heq => ?_
  exact h (heq ▸ Std.ReflOrd.compare_self)

/-- An entry is determined by its situation. -/
theorem entry_unique (h : entry ∈ a.entries) (h' : entry' ∈ a.entries) (hat : entry.1 = entry'.1) :
    entry = entry' := by
  obtain ⟨at_, move⟩ := entry
  obtain ⟨at_', move'⟩ := entry'
  obtain rfl : at_ = at_' := hat
  have hmove : some move = some move' := (mem_entries_iff.mp h).symm.trans (mem_entries_iff.mp h')
  rw [Option.some.inj hmove]

end Automaton

variable {a : Automaton}

/-! ## 3. Unrestricted grammars -/

namespace Unrestricted

variable {blank q q' origin origin' before before' x x' : String} {at_ at_' : Situation}
  {move move' : Move}

theorem nodup_origins (ha : a.WellFormed) : (origins a).Nodup := by
  refine List.nodup_append.mpr ⟨a.nodup_inputs, List.nodup_singleton _, ?_⟩
  intro letter hletter epsilon hepsilon
  rw [List.mem_singleton.mp hepsilon]
  exact ha.input_ne_epsilon hletter

@[simp] theorem length_origins (a : Automaton) : (origins a).length = a.inputs.length + 1 := by
  simp [origins]

/-- The tape alphabet of a Turing machine has no markers. -/
theorem cells_eq (hb : a.boundary = .blank blank) : a.cells = a.tapeAlphabet.toList := by
  simp [Automaton.cells, Automaton.isMarker, hb]

theorem nodup_generation (a : Automaton) (blank : String) : (generation a blank).Nodup := by
  have hletters : (a.inputs.map fun letter =>
      (⟨[layLetters], [cell letter letter, layLetters]⟩ : Production)).Nodup := by
    refine a.nodup_inputs.map fun letter letter' heq => ?_
    simpa using heq
  refine List.nodup_append.mpr ⟨List.nodup_append.mpr ⟨?_, hletters, ?_⟩, ?_, ?_⟩
  · simp [fillLeft, placeToken, cell]
  · simp [fillLeft, placeToken, layLetters]
  · simp [fillRight, layLetters]
  · simp [fillLeft, placeToken, layLetters, fillRight, cell]

theorem generation_length (a : Automaton) (blank : String) :
    (generation a blank).length = a.inputs.length + 6 := by
  simp [generation]

/-- A move to the right shows its situation and the origin of its cell. -/
theorem stepRight_inj (h : stepRight at_ move origin = stepRight at_' move' origin') :
    at_ = at_' ∧ origin = origin' := by
  cases at_
  cases at_'
  simp only [stepRight, Production.mk.injEq, List.cons.injEq, token_inj, cell_inj] at h
  obtain ⟨⟨rfl, ⟨rfl, rfl⟩, -⟩, -⟩ := h
  exact ⟨rfl, rfl⟩

/-- A move to the left also shows the cell that it goes to. -/
theorem stepLeft_inj (h : stepLeft at_ move origin before x = stepLeft at_' move' origin' before' x') :
    at_ = at_' ∧ origin = origin' ∧ before = before' ∧ x = x' := by
  cases at_
  cases at_'
  simp only [stepLeft, Production.mk.injEq, List.cons.injEq, token_inj, cell_inj] at h
  obtain ⟨⟨⟨rfl, rfl⟩, rfl, ⟨rfl, rfl⟩, -⟩, -⟩ := h
  exact ⟨rfl, rfl, rfl, rfl⟩

theorem stepRight_ne_stepLeft : stepRight at_ move origin ≠ stepLeft at_' move' origin' before x := by
  intro h
  have hwidth := congrArg (fun p : Production => p.left.length) h
  simp [stepRight, stepLeft] at hwidth

theorem nodup_entryProductions (ha : a.WellFormed) (at_ : Situation) (move : Move) :
    (entryProductions a at_ move).Nodup := by
  have horigins := nodup_origins ha
  unfold entryProductions
  cases move.direction with
  | right =>
    refine nodup_flatMap_of_unique horigins (fun origin _ => List.nodup_singleton _) ?_
    intro origin _ origin' _ p hp hp'
    rw [List.mem_singleton] at hp hp'
    exact (stepRight_inj (hp.symm.trans hp')).2
  | left =>
    refine nodup_triples horigins horigins (Automaton.nodup_toList _) ?_
    intro origin _ origin' _ before _ before' _ x x' h
    exact (stepLeft_inj h).2

theorem entryProductions_length (a : Automaton) (at_ : Situation) (move : Move) :
    (entryProductions a at_ move).length = match move.direction with
      | .right => a.inputs.length + 1
      | .left => (a.inputs.length + 1) ^ 2 * a.tapeAlphabet.toList.length := by
  unfold entryProductions
  cases move.direction with
  | right =>
    rw [length_flatMap_of_const fun origin _ => List.length_singleton, length_origins, Nat.mul_one]
  | left =>
    rw [length_triples, length_origins]
    ring

/-- **No two entries of a Turing machine make the same production.** -/
theorem nodup_transition (ha : a.WellFormed) : (transition a).Nodup := by
  refine nodup_flatMap_of_unique a.nodup_entries (fun _ _ => nodup_entryProductions ha _ _) ?_
  rintro ⟨at_, move⟩ hentry ⟨at_', move'⟩ hentry' p hp hp'
  refine Automaton.entry_unique hentry hentry' ?_
  obtain ⟨origin, -, hshape⟩ := mem_entryProductions_iff.mp hp
  obtain ⟨origin', -, hshape'⟩ := mem_entryProductions_iff.mp hp'
  rcases hshape with ⟨-, rfl⟩ | ⟨-, before, -, x, -, rfl⟩ <;>
    rcases hshape' with ⟨-, h⟩ | ⟨-, before', -, x', -, h⟩
  · exact (stepRight_inj h).1
  · exact absurd h stepRight_ne_stepLeft
  · exact absurd h.symm stepRight_ne_stepLeft
  · exact (stepLeft_inj h).1

theorem transition_length (a : Automaton) : (transition a).length =
    a.entriesTo .right * (a.inputs.length + 1) +
      a.entriesTo .left * ((a.inputs.length + 1) ^ 2 * a.tapeAlphabet.toList.length) := by
  have hleft : a.entriesTo .left =
      a.entries.countP fun entry => !decide (entry.2.direction = .right) := by
    refine List.countP_congr ?_
    rintro ⟨at_, next, write, direction⟩ -
    cases direction <;> simp
  rw [hleft]
  refine length_flatMap_of_split (fun entry : Situation × Move =>
    decide (entry.2.direction = .right)) ?_ ?_
  · rintro ⟨at_, move⟩ - hdir
    rw [entryProductions_length, of_decide_eq_true hdir]
  · rintro ⟨at_, move⟩ - hdir
    rw [entryProductions_length]
    cases h : move.direction with
    | left => rfl
    | right => simp [h] at hdir

/-- The production with which a final token passes a cell that stands before it, or behind it. -/
def passing (q origin x : String) (isBefore : Bool) : Production :=
  ⟨if isBefore then [cell origin x, token q] else [token q, cell origin x], passed q origin⟩

/-- A token that passes a cell shows the cell and the side on which it is. -/
theorem passing_inj {side side' : Bool} (h : passing q origin x side = passing q' origin' x' side') :
    q = q' ∧ origin = origin' ∧ x = x' ∧ side = side' := by
  have hleft := congrArg Production.left h
  cases side <;> cases side' <;> simp [passing] at hleft <;> simp [hleft]

theorem passing_ne_vanishing {side : Bool} : passing q origin x side ≠ ⟨[token q'], []⟩ := by
  intro h
  have hwidth := congrArg (fun p : Production => p.left.length) h
  cases side <;> simp [passing] at hwidth

theorem finalProductions_eq (a : Automaton) (q : String) : finalProductions a q = ⟨[token q], []⟩ ::
    (origins a).flatMap fun origin => a.tapeAlphabet.toList.flatMap fun x =>
      [true, false].map (passing q origin x) := rfl

theorem mem_finalProductions {p : Production} (hp : p ∈ finalProductions a q) :
    p = ⟨[token q], []⟩ ∨ ∃ origin x side, p = passing q origin x side := by
  rw [finalProductions_eq, List.mem_cons] at hp
  refine hp.imp_right fun hp => ?_
  simp only [List.mem_flatMap, List.mem_map] at hp
  obtain ⟨origin, -, x, -, side, -, rfl⟩ := hp
  exact ⟨origin, x, side, rfl⟩

theorem nodup_finalProductions (ha : a.WellFormed) (q : String) : (finalProductions a q).Nodup := by
  rw [finalProductions_eq]
  refine List.nodup_cons.mpr ⟨fun hmem => ?_, ?_⟩
  · simp only [List.mem_flatMap, List.mem_map] at hmem
    obtain ⟨origin, -, x, -, side, -, h⟩ := hmem
    exact passing_ne_vanishing h
  · refine nodup_triples (nodup_origins ha) (Automaton.nodup_toList _) (by decide) ?_
    intro origin _ origin' _ x _ x' _ side side' h
    exact (passing_inj h).2

/-- **No two final states make the same production.** -/
theorem nodup_recovery (ha : a.WellFormed) : (recovery a).Nodup := by
  refine nodup_flatMap_of_unique (Automaton.nodup_toList _)
    (fun q _ => nodup_finalProductions ha q) ?_
  intro q _ q' _ p hp hp'
  rcases mem_finalProductions hp with rfl | ⟨origin, x, side, rfl⟩ <;>
    rcases mem_finalProductions hp' with h | ⟨origin', x', side', h⟩
  · simpa using h
  · exact absurd h.symm passing_ne_vanishing
  · exact absurd h passing_ne_vanishing
  · exact (passing_inj h).1

theorem recovery_length (a : Automaton) : (recovery a).length =
    a.finals.size * (1 + 2 * (a.inputs.length + 1) * a.tapeAlphabet.toList.length) := by
  rw [← Std.ExtTreeSet.length_toList]
  refine length_flatMap_of_const fun q _ => ?_
  rw [finalProductions_eq, List.length_cons, length_triples, length_origins]
  simp only [List.length_cons, List.length_nil]
  ring

end Unrestricted

/-! ## 4. Context-sensitive grammars -/

namespace ContextSensitive

variable {left right q q' x x' y next letter letter' : String} {v : Vocabulary} {p : Production}
  {finals : List String} {move : Move}

/-- **No two letters make the same production**, and the four of one letter differ: they make the only
cell, the first one, an inner one and the last one. -/
theorem nodup_generation (hinputs : v.inputs.Nodup) (state : String) :
    (generation state v).Nodup := by
  refine nodup_flatMap_of_unique hinputs ?_ ?_
  · intro letter _
    simp [placeState, layLetters, composite]
  · intro letter _ letter' _ p hp hp'
    simp only [List.mem_cons, List.not_mem_nil, or_false] at hp hp'
    -- the helper and the number of composites tell the four apart
    rcases hp with rfl | rfl | rfl | rfl <;> rcases hp' with h | h | h | h <;>
      simp [placeState, layLetters, composite] at h <;> exact h

theorem generation_length (state : String) (v : Vocabulary) :
    (generation state v).length = 4 * v.inputs.length := by
  rw [Nat.mul_comm]
  exact length_flatMap_of_const fun _ _ => rfl

section Families

variable (hv : Clear a v) (hq : a.isState q = true) (hl : letter ∈ v.cells)

include hv hq hl

/-- A head that goes onto a marker: the production shows the place of the state. -/
theorem nodup_ontoMarker (hx : x ∈ v.cells) (place : Bool → Place) (hplace : Function.Injective place)
    (replacement : Bool → Form) : ([true, false].map fun flag =>
      (⟨[carrying v (place flag) q x letter], replacement flag⟩ : Production)).Nodup := by
  refine (by decide : [true, false].Nodup).map fun flag flag' h => ?_
  have hleft := List.singleton_inj.mp (congrArg Production.left h)
  exact hplace (hv.carrying_inj hq hx hx hl hleft).1

/-- A head that leaves a marker: the production shows the symbol of the cell beside it as well. -/
theorem nodup_leaveMarker (hcells : v.cells.Nodup) (place : Bool → Place)
    (hplace : Function.Injective place) (replacement : String → Bool → Form) :
    (v.cells.flatMap fun z => [true, false].map fun flag =>
      (⟨[carrying v (place flag) q z letter], replacement z flag⟩ : Production)).Nodup := by
  refine nodup_pairs hcells (by decide) fun z hz z' hz' flag flag' h => ?_
  have hleft := List.singleton_inj.mp (congrArg Production.left h)
  obtain ⟨hsame, -, rfl, -⟩ := hv.carrying_inj hq hz hz' hl hleft
  exact ⟨rfl, hplace hsame⟩

theorem nodup_leaveLeftMarker (hcells : v.cells.Nodup) :
    (leaveLeftMarker v q next letter).Nodup := by
  rw [leaveLeftMarker_eq]
  exact nodup_leaveMarker hv hq hl hcells Place.onLeft (fun _ _ => Place.onLeft.inj) _

theorem nodup_leaveRightMarker (hcells : v.cells.Nodup) :
    (leaveRightMarker v q next letter).Nodup := by
  rw [leaveRightMarker_eq]
  exact nodup_leaveMarker hv hq hl hcells Place.onRight (fun _ _ => Place.onRight.inj) _

theorem nodup_stepRight (hcells : v.cells.Nodup) (hinputs : v.inputs.Nodup) (hx : x ∈ v.cells) :
    (stepRight v q x next y letter).Nodup := by
  rw [stepRight_eq]
  refine List.nodup_append.mpr ⟨?_, ?_, ?_⟩
  · exact nodup_ontoMarker hv hq hl hx (.onCell · true) (fun _ _ h => (Place.onCell.inj h).1) _
  · refine nodup_triples hcells hinputs (by decide) ?_
    rintro z hz z' hz' b - b' - ⟨lead, trail⟩ ⟨lead', trail'⟩ h
    obtain ⟨hcarrying, hplain⟩ := List.cons.inj (congrArg Production.left h)
    obtain ⟨hplace, -⟩ := hv.carrying_inj hq hx hx hl hcarrying
    obtain ⟨-, rfl, rfl, rfl⟩ := hv.plain_inj hz hz' (List.singleton_inj.mp hplain)
    cases hplace
    exact ⟨rfl, rfl, rfl⟩
  · -- the productions of the first list replace one composite, those of the second two
    rintro p hp _ hp' rfl
    obtain ⟨lead, -, rfl⟩ := List.mem_map.mp hp
    simp only [List.mem_flatMap, List.mem_map, Production.mk.injEq, List.cons.injEq, reduceCtorEq,
      and_false, exists_false] at hp'

theorem nodup_stepLeft (hcells : v.cells.Nodup) (hinputs : v.inputs.Nodup) (hx : x ∈ v.cells) :
    (stepLeft v q x next y letter).Nodup := by
  rw [stepLeft_eq]
  refine List.nodup_append.mpr ⟨?_, ?_, ?_⟩
  · exact nodup_ontoMarker hv hq hl hx (.onCell true) (fun _ _ h => (Place.onCell.inj h).2) _
  · refine nodup_triples hcells hinputs (by decide) ?_
    rintro z hz z' hz' b - b' - ⟨lead, trail⟩ ⟨lead', trail'⟩ h
    obtain ⟨hplain, hcarrying⟩ := List.cons.inj (congrArg Production.left h)
    obtain ⟨hplace, -⟩ := hv.carrying_inj hq hx hx hl (List.singleton_inj.mp hcarrying)
    obtain ⟨rfl, -, rfl, rfl⟩ := hv.plain_inj hz hz' hplain
    cases hplace
    exact ⟨rfl, rfl, rfl⟩
  · rintro p hp _ hp' rfl
    obtain ⟨trail, -, rfl⟩ := List.mem_map.mp hp
    simp only [List.mem_flatMap, List.mem_map, Production.mk.injEq, List.cons.injEq, reduceCtorEq,
      and_false, exists_false] at hp'

end Families

theorem length_leaveLeftMarker (v : Vocabulary) (q next letter : String) :
    (leaveLeftMarker v q next letter).length = 2 * v.cells.length := by
  rw [leaveLeftMarker_eq, length_pairs, Nat.mul_comm]
  rfl

theorem length_leaveRightMarker (v : Vocabulary) (q next letter : String) :
    (leaveRightMarker v q next letter).length = 2 * v.cells.length := by
  rw [leaveRightMarker_eq, length_pairs, Nat.mul_comm]
  rfl

theorem length_stepRight (v : Vocabulary) (q x next y letter : String) :
    (stepRight v q x next y letter).length = 2 + v.cells.length * (v.inputs.length * 4) := by
  rw [stepRight_eq, List.length_append, length_triples]
  rfl

theorem length_stepLeft (v : Vocabulary) (q x next y letter : String) :
    (stepLeft v q x next y letter).length = 2 + v.cells.length * (v.inputs.length * 4) := by
  rw [stepLeft_eq, List.length_append, length_triples]
  rfl

section Transition

variable (ha : a.WellFormed) (hm : a.boundary = .markers left right)

include ha hm

theorem nodup_entryProductions (hletter : letter ∈ a.inputs) (hmove : a.move? q x = some move) :
    (entryProductions (.ofAutomaton a left right) ⟨q, x⟩ move letter).Nodup := by
  have hv := clear_ofAutomaton ha hm
  have hq := Automaton.isState_of_move? hmove
  have hl := hv.input_mem_cells letter hletter
  have hcells : (Vocabulary.ofAutomaton a left right).cells.Nodup := a.nodup_cells
  have hinputs : (Vocabulary.ofAutomaton a left right).inputs.Nodup := a.nodup_inputs
  unfold entryProductions
  rcases ha.move_cases hm hmove with ⟨hx, hwrite, hdir⟩ | ⟨hx, hwrite, hdir⟩ | ⟨hx, -⟩
  · simp only [hdir]
    rw [if_pos ⟨hx, hwrite⟩]
    exact nodup_leaveLeftMarker hv hq hl hcells
  · simp only [hdir]
    rw [if_pos ⟨hx, hwrite⟩]
    exact nodup_leaveRightMarker hv hq hl hcells
  · have hne := hv.cell_ne_markers x hx
    cases move.direction with
    | right =>
      simp only
      rw [if_neg fun h => hne.1 h.1]
      exact nodup_stepRight hv hq hl hcells hinputs hx
    | left =>
      simp only
      rw [if_neg fun h => hne.2 h.1]
      exact nodup_stepLeft hv hq hl hcells hinputs hx

theorem entryProductions_length (hmove : a.move? q x = some move) (letter : String) :
    (entryProductions (.ofAutomaton a left right) ⟨q, x⟩ move letter).length =
      if a.isMarker x then 2 * a.cells.length
      else 2 + a.cells.length * (a.inputs.length * 4) := by
  have hmarker := Automaton.WellFormed.isMarker_iff (x := x) hm
  unfold entryProductions
  rcases ha.move_cases hm hmove with ⟨hx, hwrite, hdir⟩ | ⟨hx, hwrite, hdir⟩ | ⟨hx, -⟩
  · simp only [hdir]
    rw [if_pos ⟨hx, hwrite⟩, if_pos (hmarker.mpr (Or.inl hx))]
    exact length_leaveLeftMarker _ _ _ _
  · simp only [hdir]
    rw [if_pos ⟨hx, hwrite⟩, if_pos (hmarker.mpr (Or.inr hx))]
    exact length_leaveRightMarker _ _ _ _
  · have hcell := (Automaton.mem_cells_iff.mp hx).2
    have hne := Automaton.WellFormed.ne_markers hm hcell
    have hnot : ¬ a.isMarker x = true := by simp [hcell]
    rw [if_neg hnot]
    cases move.direction with
    | right =>
      simp only
      rw [if_neg fun h => hne.1 h.1]
      exact length_stepRight _ _ _ _ _ _
    | left =>
      simp only
      rw [if_neg fun h => hne.2 h.1]
      exact length_stepLeft _ _ _ _ _ _

/-- **No two entries of a bounded automaton make the same production**, and no two letters for one
entry. -/
theorem nodup_transition : (transition a.entries (.ofAutomaton a left right)).Nodup := by
  have hv := clear_ofAutomaton ha hm
  have hshown : ∀ {at_ at_' : Situation} {move move' : Move} {letter letter' : String} {p : Production},
      (at_, move) ∈ a.entries → (at_', move') ∈ a.entries → letter' ∈ a.inputs →
      p ∈ entryProductions (.ofAutomaton a left right) at_ move letter →
      p ∈ entryProductions (.ofAutomaton a left right) at_' move' letter' →
        at_ = at_' ∧ letter = letter' := by
    rintro ⟨q, x⟩ ⟨q', x'⟩ move move' letter letter' p hentry hentry' hletter' hp hp'
    have hmove := Automaton.mem_entries_iff.mp hentry
    have hmove' := Automaton.mem_entries_iff.mp hentry'
    obtain ⟨rfl, rfl, rfl⟩ := ((mem_entryProductions_iff ha hm hmove).mp hp).entry_unique hv
      (Automaton.isState_of_move? hmove) (hv.input_mem_cells letter' hletter')
      ((mem_entryProductions_iff ha hm hmove').mp hp') rfl
    exact ⟨rfl, rfl⟩
  refine nodup_flatMap_of_unique a.nodup_entries ?_ ?_
  · rintro ⟨at_, move⟩ hentry
    refine nodup_flatMap_of_unique a.nodup_inputs ?_ ?_
    · exact fun letter hletter =>
        nodup_entryProductions ha hm hletter (Automaton.mem_entries_iff.mp hentry)
    · intro letter hletter letter' hletter' p hp hp'
      exact (hshown hentry hentry hletter' hp hp').2
  · rintro ⟨at_, move⟩ hentry ⟨at_', move'⟩ hentry' p hp hp'
    obtain ⟨letter, hletter, hp⟩ := List.mem_flatMap.mp hp
    obtain ⟨letter', hletter', hp'⟩ := List.mem_flatMap.mp hp'
    exact Automaton.entry_unique hentry hentry' (hshown hentry hentry' hletter' hp hp').1

theorem transition_length : (transition a.entries (.ofAutomaton a left right)).length =
    a.markerEntries * (a.inputs.length * (2 * a.cells.length)) +
      a.cellEntries * (a.inputs.length * (2 + a.cells.length * (a.inputs.length * 4))) := by
  refine length_flatMap_of_split (fun entry : Situation × Move => a.isMarker entry.1.read) ?_ ?_
  · rintro ⟨⟨q, x⟩, move⟩ hentry hmarker
    refine length_flatMap_of_const fun letter _ => ?_
    rw [entryProductions_length ha hm (Automaton.mem_entries_iff.mp hentry), if_pos hmarker]
  · rintro ⟨⟨q, x⟩, move⟩ hentry hmarker
    refine length_flatMap_of_const fun letter _ => ?_
    rw [entryProductions_length ha hm (Automaton.mem_entries_iff.mp hentry), if_neg (by simp [hmarker])]

end Transition

/-- A cell holding `x` that was generated from a letter is recovered through a final state in it, or
beside a letter, or with the letter behind it recovered from `b`. -/
def cellRecovery (finals : List String) (v : Vocabulary) (letter x : String) : List Production :=
  (finals.flatMap fun q => recoverState v q x letter)
    ++ v.inputs.flatMap fun b => recoverNeighbour v x letter b

section Recovery

variable (hv : Clear a v) (hfinals : ∀ q ∈ finals, a.isState q = true)

include hv hfinals

/-- A recovery production shows the letter and the symbol of the cell. -/
theorem cellRecovery_unique (hl' : letter' ∈ v.inputs) (hx : x ∈ v.cells) (hx' : x' ∈ v.cells)
    (hp : p ∈ cellRecovery finals v letter x)
    (hp' : p ∈ cellRecovery finals v letter' x') : letter = letter' ∧ x = x' := by
  simp only [cellRecovery, List.mem_append, List.mem_flatMap, mem_recoverState_iff,
    mem_recoverNeighbour_iff] at hp hp'
  rcases hp with ⟨q, hq, place, rfl⟩ | ⟨b, hb, ⟨trail, rfl⟩ | ⟨lead, rfl⟩⟩ <;>
    rcases hp' with ⟨q', hq', place', h⟩ | ⟨b', hb', ⟨trail', h⟩ | ⟨lead', h⟩⟩ <;>
    simp only [Production.mk.injEq, List.cons.injEq, and_true, Symbol.terminal.injEq, reduceCtorEq,
      and_false, false_and, terminal_ne_plain] at h
  · obtain ⟨-, -, rfl, rfl⟩ :=
      hv.carrying_inj (hfinals q hq) hx hx' (hv.input_mem_cells letter' hl') h.1
    exact ⟨rfl, rfl⟩
  · obtain ⟨⟨rfl, hplain⟩, -⟩ := h
    exact ⟨rfl, (hv.plain_inj hx hx' hplain).2.2.1⟩
  · exact ⟨(hv.plain_inj hx hx' h.1.1).2.2.2, (hv.plain_inj hx hx' h.1.1).2.2.1⟩

theorem nodup_cellRecovery (hdistinct : finals.Nodup) (hinputs : v.inputs.Nodup)
    (hletter : letter ∈ v.inputs) (hx : x ∈ v.cells) : (cellRecovery finals v letter x).Nodup := by
  have hl := hv.input_mem_cells letter hletter
  refine List.nodup_append.mpr ⟨?_, ?_, ?_⟩
  · simp only [recoverState_eq]
    refine nodup_pairs hdistinct (by decide) fun q hq q' _ place place' h => ?_
    have hleft := List.singleton_inj.mp (congrArg Production.left h)
    obtain ⟨rfl, rfl, -⟩ := hv.carrying_inj (hfinals q hq) hx hx hl hleft
    exact ⟨rfl, rfl⟩
  · simp only [recoverNeighbour_eq]
    refine nodup_pairs hinputs (by decide) ?_
    rintro b hb b' hb' ⟨_ | _, flag⟩ ⟨_ | _, flag'⟩ h <;>
      simp only [recovering, Production.mk.injEq, List.cons.injEq, and_true, true_and,
        Symbol.terminal.injEq, terminal_ne_plain, false_and, and_false] at h
    · obtain ⟨rfl, -⟩ := hv.plain_inj hx hx h.1.1
      exact ⟨h.2, rfl⟩
    · obtain ⟨-, rfl, -⟩ := hv.plain_inj hx hx h.1
      exact ⟨h.2, rfl⟩
  · rintro p hp _ hp' rfl
    simp only [List.mem_flatMap, mem_recoverState_iff, mem_recoverNeighbour_iff] at hp hp'
    obtain ⟨q, -, place, rfl⟩ := hp
    simp at hp'

/-- **Nothing is recovered in two ways.** -/
theorem nodup_recovery (hdistinct : finals.Nodup) (hinputs : v.inputs.Nodup) (hcells : v.cells.Nodup) :
    (recovery finals v).Nodup := by
  refine nodup_flatMap_of_unique hinputs ?_ ?_
  · intro letter hl
    refine nodup_flatMap_of_unique hcells ?_ ?_
    · exact fun x hx => nodup_cellRecovery hv hfinals hdistinct hinputs hl hx
    · exact fun x hx x' hx' p hp hp' => (cellRecovery_unique hv hfinals hl hx hx' hp hp').2
  · intro letter hl letter' hl' p hp hp'
    obtain ⟨x, hx, hp⟩ := List.mem_flatMap.mp hp
    obtain ⟨x', hx', hp'⟩ := List.mem_flatMap.mp hp'
    exact (cellRecovery_unique hv hfinals hl' hx hx' hp hp').1

end Recovery

theorem recovery_length (finals : List String) (v : Vocabulary) : (recovery finals v).length =
    v.inputs.length * (v.cells.length * (finals.length * 8 + v.inputs.length * 4)) := by
  refine length_flatMap_of_const fun letter _ => length_flatMap_of_const fun x _ => ?_
  simp only [recoverState_eq, recoverNeighbour_eq]
  rw [List.length_append, length_pairs, length_pairs]
  rfl

end ContextSensitive

/-! ## 5. The tables of a grammar -/

/-- **No production is lost or merged.**  The three tables of a well-formed automaton have a production
for every combination that they are enumerated over.  With letters `S` and cell symbols `C` (the markers
aside), and final states `F`, those of a Turing machine have `|S| + 6`, then `|S| + 1` for each entry that
goes right and `(|S| + 1)² |C|` for each one that goes left, and `1 + 2 (|S| + 1) |C|` for each final
state; those of a bounded automaton have `4 |S|`, then `2 |S| |C|` for each entry that reads a marker and
`|S| (2 + 4 |S| |C|)` for each other one, and `8 |F| |S| |C| + 4 |S|² |C|`. -/
theorem sizes_ofAutomaton (ha : a.WellFormed) :
    (∀ blank, a.boundary = .blank blank → (Grammar.ofAutomaton a).sizes = {
      kind := .unrestricted
      alphabetSize := a.inputs.length
      generationCount := a.inputs.length + 6
      transitionCount := a.entriesTo .right * (a.inputs.length + 1) +
        a.entriesTo .left * (a.inputs.length + 1) ^ 2 * a.cells.length
      recoveryCount := a.finals.size * (1 + 2 * (a.inputs.length + 1) * a.cells.length) }) ∧
    ∀ left right, a.boundary = .markers left right → (Grammar.ofAutomaton a).sizes = {
      kind := .contextSensitive
      alphabetSize := a.inputs.length
      generationCount := 4 * a.inputs.length
      transitionCount := 2 * a.markerEntries * a.inputs.length * a.cells.length +
        a.cellEntries * a.inputs.length * (2 + 4 * a.inputs.length * a.cells.length)
      recoveryCount := 8 * a.finals.size * a.inputs.length * a.cells.length +
        4 * a.inputs.length ^ 2 * a.cells.length } := by
  constructor
  · intro blank hb
    have hgeneration : (Grammar.ofAutomaton a).generation.length = a.inputs.length + 6 := by
      rw [Unrestricted.ofAutomaton_eq hb,
        Productions.length_ofList (Unrestricted.nodup_generation a blank),
        Unrestricted.generation_length]
    have htransition : (Grammar.ofAutomaton a).transition.length =
        a.entriesTo .right * (a.inputs.length + 1) +
          a.entriesTo .left * (a.inputs.length + 1) ^ 2 * a.cells.length := by
      rw [Unrestricted.ofAutomaton_eq hb, Productions.length_ofList (Unrestricted.nodup_transition ha),
        Unrestricted.transition_length, Unrestricted.cells_eq hb, Nat.mul_assoc]
    have hrecovery : (Grammar.ofAutomaton a).recovery.length =
        a.finals.size * (1 + 2 * (a.inputs.length + 1) * a.cells.length) := by
      rw [Unrestricted.ofAutomaton_eq hb, Productions.length_ofList (Unrestricted.nodup_recovery ha),
        Unrestricted.recovery_length, Unrestricted.cells_eq hb]
    simp only [Grammar.sizes, Unrestricted.kind_eq hb, Grammar.alphabet, Unrestricted.automaton_eq hb,
      hgeneration, htransition, hrecovery]
  · intro left right hm
    have hv := ContextSensitive.clear_ofAutomaton ha hm
    have hfinals : ∀ q ∈ a.finals.toList, a.isState q = true := by
      intro q hq
      rw [Std.ExtTreeSet.mem_toList, Std.ExtTreeSet.mem_iff_contains] at hq
      exact Automaton.isState_of_isFinal hq
    have hgeneration : (Grammar.ofAutomaton a).generation.length = 4 * a.inputs.length := by
      rw [ContextSensitive.ofAutomaton_eq hm,
        Productions.length_ofList (ContextSensitive.nodup_generation a.nodup_inputs _),
        ContextSensitive.generation_length]
      rfl
    have htransition : (Grammar.ofAutomaton a).transition.length =
        2 * a.markerEntries * a.inputs.length * a.cells.length +
          a.cellEntries * a.inputs.length * (2 + 4 * a.inputs.length * a.cells.length) := by
      rw [ContextSensitive.ofAutomaton_eq hm,
        Productions.length_ofList (ContextSensitive.nodup_transition ha hm),
        ContextSensitive.transition_length ha hm]
      ring
    have hrecovery : (Grammar.ofAutomaton a).recovery.length =
        8 * a.finals.size * a.inputs.length * a.cells.length +
          4 * a.inputs.length ^ 2 * a.cells.length := by
      rw [ContextSensitive.ofAutomaton_eq hm,
        Productions.length_ofList (ContextSensitive.nodup_recovery hv hfinals
          (Automaton.nodup_toList _) a.nodup_inputs a.nodup_cells),
        ContextSensitive.recovery_length, Std.ExtTreeSet.length_toList]
      simp only [ContextSensitive.Vocabulary.ofAutomaton]
      ring
    simp only [Grammar.sizes, ContextSensitive.kind_eq hm, Grammar.alphabet,
      ContextSensitive.automaton_eq hm, hgeneration, htransition, hrecovery]

/-- The machines of the catalog that decide primality. -/
theorem primality_sizes :
    ((Primality.machine .unbounded).WellFormed ∧
      (Grammar.ofAutomaton (Primality.machine .unbounded)).sizes = ⟨.unrestricted, 1, 7, 320, 21⟩) ∧
    ((Primality.machine .bounded).WellFormed ∧
      (Grammar.ofAutomaton (Primality.machine .bounded)).sizes = ⟨.contextSensitive, 1, 4, 560, 48⟩) := by
  have hwellFormed := Primality.wellFormed_machine
  refine ⟨⟨hwellFormed .unbounded, ?_⟩, hwellFormed .bounded, ?_⟩
  · rw [(sizes_ofAutomaton (hwellFormed .unbounded)).1 "B" rfl]
    decide +kernel
  · rw [(sizes_ofAutomaton (hwellFormed .bounded)).2 "@" "$" rfl]
    decide +kernel

end TapeGrammar
