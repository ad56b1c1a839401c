import TapeGrammar.Catalog
import TapeGrammar.Unary
import TapeGrammar.Proofs.Descriptor.Parse
import TapeGrammar.Proofs.Primality.Decision

/-!
# The machines of the catalog

The two descriptors of the catalog list the moves of one and the same program: the Turing machine
runs it between blanks, the bounded automaton between its markers, after a move that takes it from
the left marker to the first digit.  Both are well formed, and both are deciders in the sense of
`TapeGrammar.Primality.Decider`.
-/

namespace TapeGrammar

/-! ## 1. Looking up a machine -/

namespace Catalog

variable {entry : Entry} {automaton : Automaton} {machines : List (Entry × Automaton)}

theorem mem_machines_iff : (entry, automaton) ∈ Catalog.machines ↔
    entry ∈ entries ∧ Descriptor.parse entry.text entry.kind = .ok automaton := by
  rw [Catalog.machines, List.mem_filterMap]
  constructor
  · rintro ⟨entry', hentry', hparsed⟩
    split at hparsed
    · rename_i automaton' hparse
      cases hparsed
      exact ⟨hentry', hparse⟩
    · cases hparsed
  · rintro ⟨hentry, hparse⟩
    exact ⟨entry, hentry, by rw [hparse]⟩

/-- A machine that is the only one with its name and kind is found. -/
theorem exists_findIn (hmem : (entry, automaton) ∈ machines)
    (hunique : ∀ other ∈ machines, other.1.name = entry.name → other.2.kind = automaton.kind →
      other.2 = automaton) :
    ∃ entry', findIn machines entry.name automaton.kind = .ok (entry', automaton) := by
  unfold findIn
  split
  · rename_i found hfound
    have hfits : found.1.name = entry.name ∧ found.2.kind = automaton.kind := by
      simpa using List.find?_some hfound
    have hsame := hunique found (List.mem_of_find?_eq_some hfound) hfits.1 hfits.2
    exact ⟨found.1, congrArg Except.ok (Prod.ext rfl hsame)⟩
  · rename_i hnone
    have hmissing := List.find?_eq_none.mp hnone _ hmem
    simp at hmissing

/-- The machine is what the catalog has under this name and kind. -/
theorem automaton_eq_ok (hmem : (entry, automaton) ∈ Catalog.machines)
    (hunique : ∀ other ∈ Catalog.machines, other.1.name = entry.name →
      other.2.kind = automaton.kind → other.2 = automaton) :
    Catalog.automaton entry.name automaton.kind = .ok automaton := by
  obtain ⟨entry', hfind⟩ := exists_findIn hmem hunique
  unfold Catalog.automaton find
  rw [hfind]
  rfl

end Catalog

namespace Primality

open Descriptor (Layout Sections)

/-! ## 2. What the descriptors say -/

/-- The symbol before the word. -/
def before : Kind → String
  | .unbounded => "B"
  | .bounded => "@"

/-- The symbol behind the word. -/
def behind : Kind → String
  | .unbounded => "B"
  | .bounded => "$"

/-- The entry that takes the bounded automaton to the first digit. -/
def entrance : Situation × Move := (⟨"start", "@"⟩, ⟨"q0", "@", .right⟩)

/-- What the lines of the descriptors say. -/
def layout : Kind → Layout
  | .unbounded => {
      alphabet := ["1"]
      tapeAlphabet := ["1", "d", "u", "x", "B"]
      boundary := ["B"]
      start := "q0"
      finals := ["accept"]
      entries := program "B" "B" }
  | .bounded => {
      alphabet := ["@", "1", "$"]
      tapeAlphabet := ["@", "1", "d", "u", "x", "$"]
      boundary := ["@", "$"]
      start := "start"
      finals := ["accept"]
      entries := entrance :: program "@" "$" }

/-- What delimits the tape. -/
def boundary : Kind → Boundary
  | .unbounded => .blank "B"
  | .bounded => .markers "@" "$"

/-- The automaton that runs the program. -/
def machine (kind : Kind) : Automaton := (layout kind).toAutomaton (boundary kind)

/-- The catalog entries of the machines. -/
def descriptor (kind : Kind) : Catalog.Entry :=
  ⟨Catalog.primality, kind, match kind with
    | .unbounded => Catalog.primalityUnbounded
    | .bounded => Catalog.primalityBounded⟩

/-! ## 3. Reading the descriptors -/

theorem distinct_layout (kind : Kind) : (layout kind).Distinct := by
  cases kind <;> decide +kernel

theorem wellFormed_machine (kind : Kind) : (machine kind).WellFormed := by
  cases kind <;> decide +kernel

theorem kind_machine (kind : Kind) : (machine kind).kind = kind := by
  cases kind <;> rfl

/-- The characters of a text that is given by its lines. -/
theorem toList_text (entry : Catalog.Entry) :
    entry.text.toList = entry.lines.flatMap fun line => line.toList ++ ['\n'] := by
  simp [Catalog.Entry.text, List.flatMap_map]

/-- A text begins with the characters of its first line. -/
theorem flatMap_ofList_cons (cs : List Char) (lines : List String) :
    ((String.ofList cs :: lines).flatMap fun line => line.toList ++ ['\n']) =
      cs ++ '\n' :: lines.flatMap fun line => line.toList ++ ['\n'] := by
  simp

/-- The sections of the descriptors hold what the layout says. -/
theorem layout_ofText (kind : Kind) :
    (Sections.ofText (Text.trim ((descriptor kind).lines.flatMap fun line =>
      line.toList ++ ['\n']))).toOption.map Sections.layout = some (layout kind) := by
  -- the characters are taken out of the literals first, since decoding them is slow
  cases kind with
  | unbounded =>
    have hlines : (descriptor .unbounded).lines = Catalog.primalityUnbounded := rfl
    rw [hlines, Catalog.primalityUnbounded]
    repeat rw [flatMap_ofList_cons]
    decide +kernel
  | bounded =>
    have hlines : (descriptor .bounded).lines = Catalog.primalityBounded := rfl
    rw [hlines, Catalog.primalityBounded]
    repeat rw [flatMap_ofList_cons]
    decide +kernel

/-- **Parsing the descriptors gives the machines.** -/
theorem parse_descriptor (kind : Kind) :
    Descriptor.parse (descriptor kind).text kind = .ok (machine kind) := by
  obtain ⟨found, hfound, hlayout⟩ := Option.map_eq_some_iff.mp (layout_ofText kind)
  rw [← toList_text] at hfound
  have hsections : Sections.ofText (Text.trim (descriptor kind).text.toList) = .ok found := by
    cases hread : Sections.ofText (Text.trim (descriptor kind).text.toList) <;> rw [hread] at hfound
    · cases hfound
    · exact congrArg Except.ok (Option.some.inj hfound)
  have hboundary : Sections.boundary? kind (layout kind).boundary = some (boundary kind) := by
    cases kind <;> rfl
  have hparse : Descriptor.parse (descriptor kind).text kind = Descriptor.analysed (machine kind) :=
    Descriptor.parse_eq_analysed hsections hlayout hboundary (distinct_layout kind)
  exact hparse.trans (Descriptor.analysed_of_wellFormed (wellFormed_machine kind))

/-- **The catalog holds the machines.** -/
theorem automaton_primality (kind : Kind) :
    Catalog.automaton Catalog.primality kind = .ok (machine kind) := by
  have hentries : Catalog.entries = [descriptor .unbounded, descriptor .bounded] := rfl
  have hmem : (descriptor kind, machine kind) ∈ Catalog.machines := by
    refine Catalog.mem_machines_iff.mpr ⟨?_, parse_descriptor kind⟩
    rw [hentries]
    cases kind <;> simp
  have hfound := Catalog.automaton_eq_ok hmem ?_
  · rwa [kind_machine] at hfound
  · rintro ⟨entry, automaton⟩ hother - hkind
    obtain ⟨hentry, hparse⟩ := Catalog.mem_machines_iff.mp hother
    obtain ⟨other, rfl⟩ : ∃ other, entry = descriptor other := by
      rw [hentries] at hentry
      rcases List.mem_cons.mp hentry with h | h
      · exact ⟨_, h⟩
      · exact ⟨_, List.mem_singleton.mp h⟩
    obtain rfl : machine other = automaton :=
      Except.ok.inj ((parse_descriptor other).symm.trans hparse)
    rw [kind_machine, kind_machine] at hkind
    rw [hkind]

/-! ## 4. The moves -/

variable {kind : Kind} {state read : String}

/-- The moves are those that the layout lists. -/
theorem move?_iff {move : Move} :
    (machine kind).move? state read = some move ↔ (⟨state, read⟩, move) ∈ (layout kind).entries :=
  Delta.getElem?_ofList_iff (distinct_layout kind)

theorem move?_eq_none (h : ∀ entry ∈ (layout kind).entries, entry.1 ≠ ⟨state, read⟩) :
    (machine kind).move? state read = none :=
  Option.eq_none_iff_forall_ne_some.mpr fun _ hmove => h _ (move?_iff.mp hmove) rfl

/-- A state that no entry is for halts the machine. -/
theorem move?_eq_none_of_state (h : ∀ entry ∈ (layout kind).entries, entry.1.state ≠ state)
    (read : String) : (machine kind).move? state read = none :=
  move?_eq_none fun entry hentry heq => h entry hentry (by rw [heq])

theorem follows_machine (kind : Kind) : Follows (machine kind) (before kind) (behind kind) := by
  intro state read move hmem
  cases kind with
  | unbounded => exact move?_iff.mpr hmem
  | bounded => exact move?_iff.mpr (List.mem_cons_of_mem entrance hmem)

/-- **Both machines are deciders.** -/
theorem decider_machine (kind : Kind) :
    Decider (machine kind) (before kind) (behind kind) where
  follows := follows_machine kind
  final_iff state := by
    have hfinals : (layout kind).finals = ["accept"] := by cases kind <;> rfl
    rw [Automaton.isFinal, machine, Layout.toAutomaton, hfinals, Std.ExtTreeSet.contains_ofList,
      List.contains_iff_mem, List.mem_singleton]
  accept_halts := move?_eq_none_of_state (by cases kind <;> decide +kernel)
  reject_halts := move?_eq_none_of_state (by cases kind <;> decide +kernel)
  short_halts := move?_eq_none (by cases kind <;> decide +kernel)

/-! ## 5. The start -/

/-- The position of the first digit. -/
def origin : Kind → Int
  | .unbounded => 0
  | .bounded => 1

/-- What the machines show at the beginning: the Turing machine the first digit, and the bounded
automaton the left marker. -/
def firstView (n : Nat) : Kind → View
  | .unbounded => ⟨"q0", 0, band "B" "B" n 0 0 0⟩
  | .bounded => ⟨"start", -1, band "@" "$" n 0 0 0⟩

/-- The cells at the beginning: the number, and the symbols beside it. -/
theorem cell?_ofWord (kind : Kind) (n : Nat) {i : Int} (hi : -1 ≤ i) (hin : i ≤ n) :
    (Configuration.ofWord (machine kind) (Unary.word n)).cell? (machine kind) (origin kind + i) =
      some (band (before kind) (behind kind) n 0 0 0 i) := by
  cases kind with
  | unbounded =>
    have hcell : ∀ p, (Configuration.ofWord (machine .unbounded) (Unary.word n)).cell?
        (machine .unbounded) p =
          ((Tape.ofList (List.replicate n "1")).get? p).or (some "B") := by
      intro p
      rw [Configuration.cell?, Option.orElse_eq_orElse, Option.orElse_eq_or]
      rfl
    rw [hcell, origin, Int.zero_add]
    cases i with
    | negSucc i =>
      rw [band_left (Int.negSucc_lt_zero i)]
      rfl
    | ofNat i =>
      show ((List.replicate n "1").toArray[i]?).or (some "B") = _
      rw [Int.ofNat_eq_natCast, band_number, List.getElem?_toArray, List.getElem?_replicate]
      split <;> rfl
  | bounded =>
    have hcell : ∀ p, (Configuration.ofWord (machine .bounded) (Unary.word n)).cell?
        (machine .bounded) p =
          (Tape.ofList ("@" :: List.replicate n "1" ++ ["$"])).get? p := by
      intro p
      rw [Configuration.cell?, Option.orElse_eq_orElse, Option.orElse_eq_or]
      exact Option.or_none
    rw [hcell, origin]
    obtain rfl | ⟨k, rfl⟩ : i = -1 ∨ ∃ k : Nat, i = k := by
      by_cases h : i = -1
      · exact .inl h
      · exact .inr ⟨i.toNat, by omega⟩
    · rw [band_left (by decide)]
      rfl
    · rw [band_number, show (1 : Int) + k = ((k + 1 : Nat) : Int) by omega]
      show ("@" :: List.replicate n "1" ++ ["$"]).toArray[k + 1]? = _
      rw [List.getElem?_toArray, List.cons_append, List.getElem?_cons_succ, List.getElem?_append,
        List.length_replicate]
      split
      · rename_i hk
        rw [List.getElem?_replicate, if_pos hk]
      · obtain rfl : k = n := by omega
        rw [Nat.sub_self]
        rfl

theorem shows_firstView (n : Nat) (kind : Kind) :
    Shows (machine kind) (origin kind) n (.ofWord (machine kind) (Unary.word n))
      (firstView n kind) := by
  have hhead := Configuration.head_ofWord (a := machine kind) (Unary.word n)
  refine ⟨?_, ?_, ?_, fun i hi hin => ?_⟩
  · rw [Configuration.state_ofWord]
    cases kind <;> rfl
  · rw [hhead]
    cases kind <;> rfl
  · rw [Inside, hhead]
    cases kind <;> simp only [origin] <;> omega
  · rw [cell?_ofWord kind n hi hin]
    cases kind <;> rfl

/-- The bounded automaton steps onto the first digit; the Turing machine is there from the start. -/
theorem leads_firstView {n : Nat} (hn : 1 ≤ n) (kind : Kind) :
    Leads (machine kind) (origin kind) n (firstView n kind)
      ⟨"q0", 0, band (before kind) (behind kind) n 0 0 0⟩ := by
  cases kind with
  | unbounded => exact .refl _
  | bounded =>
    refine .right (move?_iff.mpr ?_) (fun _ _ => rfl) (Int.le_refl (-1)) (by omega)
    exact List.mem_cons_self

/-- **The machines halt on every number**, in a final state exactly if the number is prime, and the
head never leaves the number and the two cells beside it. -/
theorem halts_machine (kind : Kind) {n : Nat} (hn : 1 ≤ n) :
    ∃ steps c, Configuration.after? (machine kind) steps
        (.ofWord (machine kind) (Unary.word n)) = some c ∧ c.pending? (machine kind) = none ∧
      ((machine kind).isFinal c.state = true ↔ n.Prime) ∧
      ∀ m c₁, Configuration.after? (machine kind) m (.ofWord (machine kind) (Unary.word n)) =
        some c₁ → Inside (origin kind) n c₁ :=
  (decider_machine kind).halts hn (leads_firstView hn kind) (shows_firstView n kind)

end Primality

end TapeGrammar
