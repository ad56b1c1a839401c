import TapeGrammar.Descriptor
import TapeGrammar.Proofs.Descriptor.Sections

/-!
# What a text describes

A text that is read as a descriptor can fail in four ways, one after the other: its lines do not spell
a layout, the boundary does not fit the kind of machine, two entries are made for one situation, or
the automaton has a defect.  Which of them it is, and the automaton otherwise, can be told from the
lines of the text alone (`parse_follows_lines`).
-/

namespace TapeGrammar

/-- The number of symbols that delimit the tape of a machine of this kind. -/
def Kind.boundarySize : Kind → Nat
  | .unbounded => 1
  | .bounded => 2

/-- The symbols that delimit a tape, as a descriptor lists them. -/
def Boundary.symbols : Boundary → List String
  | .blank symbol => [symbol]
  | .markers left right => [left, right]

/-- In a transition function made of entries for different situations each of them is found. -/
theorem Delta.getElem?_ofList_iff {l : List (Situation × Move)} {at_ : Situation} {move : Move}
    (hnodup : (l.map Prod.fst).Nodup) :
    (Std.ExtTreeMap.ofList l : Delta)[at_]? = some move ↔ (at_, move) ∈ l := by
  have hpairwise : l.Pairwise fun a b => ¬ compare a.1 b.1 = .eq := by
    refine (List.pairwise_map.mp hnodup).imp fun hne heq => hne ?_
    exact Std.LawfulEqOrd.eq_of_compare heq
  have hfound : ∀ {move}, (at_, move) ∈ l → (Std.ExtTreeMap.ofList l : Delta)[at_]? = some move :=
    fun hmem => Std.ExtTreeMap.getElem?_ofList_of_mem Std.ReflCmp.compare_self hpairwise hmem
  refine ⟨fun h => ?_, hfound⟩
  have hmem : at_ ∈ (Std.ExtTreeMap.ofList l : Delta) := by
    rw [Std.ExtTreeMap.mem_iff_isSome_getElem?, h]
    rfl
  rw [Std.ExtTreeMap.mem_ofList, List.contains_iff_mem] at hmem
  obtain ⟨⟨_, move'⟩, hentry, rfl⟩ := List.mem_map.mp hmem
  obtain rfl := Option.some.inj ((hfound hentry).symm.trans h)
  exact hentry

namespace Descriptor

open Reader

variable {layout : Layout} {kind : Kind} {text : String} {cs : List Char}
  {automaton automaton' : Automaton} {reason reason' : Reason}

/-! ## 1. The automaton of a layout -/

namespace Layout

/-- The entries are for different situations. -/
def Distinct (layout : Layout) : Prop := (layout.entries.map Prod.fst).Nodup

instance : Decidable layout.Distinct := inferInstanceAs (Decidable (List.Nodup _))

/-- The parts of the automaton are those that the layout lists. -/
structure Describes (layout : Layout) (kind : Kind) (automaton : Automaton) : Prop where
  kind : automaton.kind = kind
  alphabet : ∀ label, label ∈ automaton.alphabet ↔ label ∈ layout.alphabet
  tapeAlphabet : ∀ label, label ∈ automaton.tapeAlphabet ↔ label ∈ layout.tapeAlphabet
  boundary : automaton.boundary.symbols = layout.boundary
  start : automaton.start = layout.start
  finals : ∀ label, label ∈ automaton.finals ↔ label ∈ layout.finals
  moves : ∀ at_ move, automaton.delta[at_]? = some move ↔ (at_, move) ∈ layout.entries

/-- The automaton with the parts that a layout lists, and what delimits its tape. -/
def toAutomaton (layout : Layout) (boundary : Boundary) : Automaton where
  alphabet := .ofList layout.alphabet
  tapeAlphabet := .ofList layout.tapeAlphabet
  boundary := boundary
  start := layout.start
  finals := .ofList layout.finals
  delta := .ofList layout.entries

theorem describes_toAutomaton {boundary : Boundary} (hdistinct : layout.Distinct)
    (hkind : (layout.toAutomaton boundary).kind = kind)
    (hboundary : boundary.symbols = layout.boundary) :
    layout.Describes kind (layout.toAutomaton boundary) where
  kind := hkind
  alphabet _ := Std.ExtTreeSet.mem_ofList.trans List.contains_iff_mem
  tapeAlphabet _ := Std.ExtTreeSet.mem_ofList.trans List.contains_iff_mem
  boundary := hboundary
  start := rfl
  finals _ := Std.ExtTreeSet.mem_ofList.trans List.contains_iff_mem
  moves _ _ := Delta.getElem?_ofList_iff hdistinct

/-- **A layout describes at most one automaton.** -/
theorem Describes.unique (h : layout.Describes kind automaton)
    (h' : layout.Describes kind automaton') : automaton = automaton' := by
  obtain ⟨alphabet, tapeAlphabet, boundary, start, finals, delta⟩ := automaton
  obtain ⟨alphabet', tapeAlphabet', boundary', start', finals', delta'⟩ := automaton'
  have halphabet : alphabet = alphabet' :=
    Std.ExtTreeSet.ext_mem fun label => (h.alphabet label).trans (h'.alphabet label).symm
  have htape : tapeAlphabet = tapeAlphabet' :=
    Std.ExtTreeSet.ext_mem fun label => (h.tapeAlphabet label).trans (h'.tapeAlphabet label).symm
  have hfinals : finals = finals' :=
    Std.ExtTreeSet.ext_mem fun label => (h.finals label).trans (h'.finals label).symm
  have hdelta : delta = delta' := Std.ExtTreeMap.ext_getElem? fun at_ => Option.ext fun move =>
    (h.moves at_ move).trans (h'.moves at_ move).symm
  have hboundary : boundary = boundary' := by
    have := h.boundary.trans h'.boundary.symm
    cases boundary <;> cases boundary' <;> simp_all [Boundary.symbols]
  have hstart : start = start' := h.start.trans h'.start.symm
  subst halphabet htape hfinals hdelta hboundary hstart
  rfl

end Layout

/-! ## 2. Entries -/

namespace Sections

variable {entries : List (Located (Situation × Move))} {delta : Delta}

/-- Entries for situations that are new and different are all added. -/
theorem addEntries_eq_ok (hfresh : ∀ entry ∈ entries, entry.value.1 ∉ delta)
    (hnodup : (entries.map fun entry => entry.value.1).Nodup) :
    addEntries delta entries = .ok (delta.insertMany (entries.map Located.value)) := by
  induction entries generalizing delta with
  | nil => simp [addEntries]
  | cons entry entries ih =>
    obtain ⟨hhead, htail⟩ := List.nodup_cons.mp hnodup
    have hnew : ¬ delta.contains entry.value.1 = true :=
      fun h => hfresh entry List.mem_cons_self (Std.ExtTreeMap.contains_iff_mem.mp h)
    have hfresh' : ∀ entry' ∈ entries, entry'.value.1 ∉ delta.insert entry.value.1 entry.value.2 := by
      intro entry' hentry'
      rw [Std.ExtTreeMap.mem_insert, not_or]
      refine ⟨fun hsame => hhead ?_, hfresh entry' (List.mem_cons_of_mem entry hentry')⟩
      refine List.mem_map.mpr ⟨entry', hentry', ?_⟩
      exact (Std.LawfulEqOrd.eq_of_compare hsame).symm
    rw [addEntries, if_neg hnew, ih hfresh' htail, List.map_cons,
      Std.ExtTreeMap.insertMany_cons]

/-- Otherwise one of them is given back. -/
theorem addEntries_eq_error (h : ¬ ((∀ entry ∈ entries, entry.value.1 ∉ delta) ∧
      (entries.map fun entry => entry.value.1).Nodup)) :
    ∃ entry, addEntries delta entries = .error entry := by
  induction entries generalizing delta with
  | nil => simp at h
  | cons entry entries ih =>
    unfold addEntries
    split
    · exact ⟨entry, rfl⟩
    · rename_i hnew
      refine ih fun ⟨hfresh, hnodup⟩ => h ⟨?_, ?_⟩
      · intro entry' hentry'
        rcases List.mem_cons.mp hentry' with rfl | hentry'
        · simpa using hnew
        · exact fun hmem => hfresh entry' hentry' (Std.ExtTreeMap.mem_insert.mpr (.inr hmem))
      · refine List.nodup_cons.mpr ⟨fun hmem => ?_, hnodup⟩
        obtain ⟨entry', hentry', hsame⟩ := List.mem_map.mp hmem
        refine hfresh entry' hentry' (Std.ExtTreeMap.mem_insert.mpr (.inl ?_))
        rw [hsame]
        exact Std.ReflCmp.compare_self

theorem symbols_of_boundary? {symbols : List String} {boundary : Boundary}
    (h : boundary? kind symbols = some boundary) : boundary.symbols = symbols := by
  unfold boundary? at h
  split at h <;> cases h <;> rfl

theorem kind_of_boundary? {symbols : List String}
    (h : boundary? kind symbols = some automaton.boundary) : automaton.kind = kind := by
  unfold boundary? at h
  unfold Automaton.kind
  split at h <;> cases h' : automaton.boundary <;> simp_all

theorem boundary?_eq_none_iff {symbols : List String} :
    boundary? kind symbols = none ↔ symbols.length ≠ kind.boundarySize := by
  rcases kind <;> rcases symbols with _ | ⟨a, _ | ⟨b, _ | ⟨c, rest⟩⟩⟩ <;>
    simp [boundary?, Kind.boundarySize]

theorem exists_boundary {symbols : List String} (h : symbols.length = kind.boundarySize) :
    ∃ boundary, boundary? kind symbols = some boundary :=
  Option.ne_none_iff_exists'.mp fun hnone => boundary?_eq_none_iff.mp hnone h

end Sections

namespace Sections

variable {found : Sections}

/-- Sections that list their parts properly make up the automaton with these parts. -/
theorem toAutomaton_eq_ok (cs : List Char) {boundary : Boundary} (hlayout : found.layout = layout)
    (hboundary : boundary? kind layout.boundary = some boundary) (hdistinct : layout.Distinct) :
    found.toAutomaton cs kind = .ok (layout.toAutomaton boundary) := by
  subst hlayout
  have hentries : (found.entries.map fun entry => entry.value.1).Nodup := by
    rw [Layout.Distinct, layout, List.map_map] at hdistinct
    exact hdistinct
  have hadded : addEntries ∅ found.entries = .ok (.ofList (found.entries.map Located.value)) := by
    rw [Std.ExtTreeMap.ofList_eq_insertMany_empty]
    exact addEntries_eq_ok (fun _ _ => Std.ExtTreeMap.not_mem_empty) hentries
  have hboundary' : boundary? kind found.boundary.value = some boundary := hboundary
  rw [toAutomaton, hboundary']
  simp only [hadded]
  rfl

/-- Sections with as many boundary symbols as the kind asks for, but with two entries for one
situation, are rejected for that. -/
theorem exists_duplicateMove (cs : List Char) (hlayout : found.layout = layout)
    (hsize : layout.boundary.length = kind.boundarySize) (hdistinct : ¬ layout.Distinct) :
    ∃ error at_, found.toAutomaton cs kind = .error error ∧ error.reason = .duplicateMove at_ := by
  subst hlayout
  obtain ⟨boundary, hboundary⟩ : ∃ boundary, boundary? kind found.boundary.value = some boundary :=
    exists_boundary hsize
  obtain ⟨entry, hentry⟩ : ∃ entry, addEntries ∅ found.entries = .error entry := by
    refine addEntries_eq_error fun ⟨_, hnodup⟩ => hdistinct ?_
    rw [Layout.Distinct, layout, List.map_map]
    exact hnodup
  exact ⟨_, entry.value.1, by rw [toAutomaton, hboundary]; simp only [hentry]; rfl, rfl⟩

/-- Sections with another number of boundary symbols are rejected for that. -/
theorem exists_boundaryArity (cs : List Char) (hlayout : found.layout = layout)
    (hsize : layout.boundary.length ≠ kind.boundarySize) :
    ∃ error, found.toAutomaton cs kind = .error error ∧
      error.reason = .boundaryArity kind layout.boundary.length := by
  subst hlayout
  have hnone : boundary? kind found.boundary.value = none := boundary?_eq_none_iff.mpr hsize
  exact ⟨_, by rw [toAutomaton, hnone], rfl⟩

theorem ofText_of_spells (h : Spells (lines cs) layout) :
    ∃ found, ofText cs = .ok found ∧ found.layout = layout := by
  obtain ⟨found, offset, attempts, hrun, hfound⟩ := reads_sections h 0 .none
  refine ⟨found, ?_, hfound⟩
  unfold ofText
  simp only [hrun]

theorem ofText_of_not_spells (h : ∀ layout, ¬ Spells (lines cs) layout) :
    ∃ error parts, ofText cs = .error error ∧ error.reason = .expected parts := by
  obtain ⟨attempts, hrun⟩ := misses_sections h 0 .none
  refine ⟨.atPlace cs attempts.furthest (.expected attempts.missed), attempts.missed, ?_, rfl⟩
  unfold ofText
  simp only [hrun]

end Sections

/-! ## 3. The parser -/

/-- The text is rejected as malformed, for the given reason. -/
def FailsWith (text : String) (kind : Kind) (reason : Reason) : Prop :=
  ∃ error, parse text kind = .error (.malformed error) ∧ error.reason = reason

/-- What the analysis says of an automaton: its first defect, or that it has none. -/
def analysed (automaton : Automaton) : Except DescriptorError Automaton :=
  match automaton.defect? with
  | some defect => .error (.inconsistent defect)
  | none => .ok automaton

theorem analysed_of_wellFormed (h : automaton.WellFormed) : analysed automaton = .ok automaton := by
  rw [analysed, show automaton.defect? = none from h]

theorem FailsWith.unique (h : FailsWith text kind reason) (h' : FailsWith text kind reason') :
    reason = reason' := by
  obtain ⟨error, herror, rfl⟩ := h
  obtain ⟨error', herror', rfl⟩ := h'
  rw [herror] at herror'
  cases herror'
  rfl

/-- An automaton that is analysed does not come of a malformed text. -/
theorem not_failsWith (h : parse text kind = analysed automaton) : ¬ FailsWith text kind reason := by
  rintro ⟨error, herror, -⟩
  rw [h, analysed] at herror
  split at herror <;> cases herror

/-- The lines of a text as far as they are read: white space at both ends is none of them. -/
def linesOf (text : String) : List (List Char) := lines (Text.trim text.toList)

theorem parse_eq (text : String) (kind : Kind) : parse text kind =
    match read text.toList kind with
    | .error error => .error (.malformed error)
    | .ok automaton => analysed automaton := by
  unfold parse parseChars
  generalize read text.toList kind = result
  cases result <;> rfl

theorem failsWith_of_read {error : SyntaxError} (h : read text.toList kind = .error error) :
    FailsWith text kind error.reason :=
  ⟨error, by rw [parse_eq, h], rfl⟩

theorem read_eq {found : Sections} (h : Sections.ofText (Text.trim text.toList) = .ok found) :
    read text.toList kind = found.toAutomaton (Text.trim text.toList) kind := by
  unfold read
  simp only [h]

theorem parse_eq_analysed {found : Sections} {boundary : Boundary}
    (hfound : Sections.ofText (Text.trim text.toList) = .ok found) (hlayout : found.layout = layout)
    (hboundary : Sections.boundary? kind layout.boundary = some boundary)
    (hdistinct : layout.Distinct) : parse text kind = analysed (layout.toAutomaton boundary) := by
  rw [parse_eq, read_eq hfound, Sections.toAutomaton_eq_ok _ hlayout hboundary hdistinct]

theorem failsWith_expected (h : ∀ layout, ¬ Spells (linesOf text) layout) :
    ∃ parts, FailsWith text kind (.expected parts) := by
  obtain ⟨error, parts, herror, hreason⟩ := Sections.ofText_of_not_spells h
  have hread : read text.toList kind = .error error := by
    unfold read
    simp only [herror]
  exact ⟨parts, hreason ▸ failsWith_of_read hread⟩

section Spelled

variable (h : Spells (linesOf text) layout)

include h

theorem failsWith_boundaryArity (hsize : layout.boundary.length ≠ kind.boundarySize) :
    FailsWith text kind (.boundaryArity kind layout.boundary.length) := by
  obtain ⟨found, hfound, hlayout⟩ := Sections.ofText_of_spells h
  obtain ⟨error, herror, hreason⟩ := Sections.exists_boundaryArity _ hlayout hsize
  exact hreason ▸ failsWith_of_read ((read_eq hfound).trans herror)

theorem failsWith_duplicateMove (hsize : layout.boundary.length = kind.boundarySize)
    (hdistinct : ¬ layout.Distinct) : ∃ at_, FailsWith text kind (.duplicateMove at_) := by
  obtain ⟨found, hfound, hlayout⟩ := Sections.ofText_of_spells h
  obtain ⟨error, at_, herror, hreason⟩ := Sections.exists_duplicateMove _ hlayout hsize hdistinct
  exact ⟨at_, hreason ▸ failsWith_of_read ((read_eq hfound).trans herror)⟩

theorem exists_parse_eq_analysed (hsize : layout.boundary.length = kind.boundarySize)
    (hdistinct : layout.Distinct) :
    ∃ automaton, layout.Describes kind automaton ∧ parse text kind = analysed automaton := by
  obtain ⟨found, hfound, hlayout⟩ := Sections.ofText_of_spells h
  obtain ⟨boundary, hboundary⟩ := Sections.exists_boundary hsize
  have hkind : (layout.toAutomaton boundary).kind = kind := Sections.kind_of_boundary? hboundary
  exact ⟨layout.toAutomaton boundary,
    Layout.describes_toAutomaton hdistinct hkind (Sections.symbols_of_boundary? hboundary),
    parse_eq_analysed hfound hlayout hboundary hdistinct⟩

end Spelled

/-- **Parsing follows the lines of the text.**  The text is malformed as a whole exactly if its lines
do not spell a layout.  If they do, the parser complains about the boundary exactly if the third line
does not hold the number of symbols that the kind of machine asks for.  If it does, the parser
complains about a move exactly if two lines define one for the same situation; and if no two lines
do, it returns what the analysis says of the automaton with the parts that the lines list. -/
theorem parse_follows_lines (text : String) (kind : Kind) :
    ((∃ parts, FailsWith text kind (.expected parts)) ↔
      ¬ ∃ layout, Spells (linesOf text) layout) ∧
    ∀ layout, Spells (linesOf text) layout →
      ((∃ asked found, FailsWith text kind (.boundaryArity asked found)) ↔
        layout.boundary.length ≠ kind.boundarySize) ∧
      (layout.boundary.length = kind.boundarySize →
        ((∃ at_, FailsWith text kind (.duplicateMove at_)) ↔ ¬ layout.Distinct) ∧
        (layout.Distinct → ∃ automaton, layout.Describes kind automaton ∧
          parse text kind = analysed automaton)) := by
  refine ⟨⟨?_, fun hnone => failsWith_expected fun layout h => hnone ⟨layout, h⟩⟩, ?_⟩
  · rintro ⟨parts, hparts⟩ ⟨layout, h⟩
    by_cases hsize : layout.boundary.length = kind.boundarySize
    · by_cases hdistinct : layout.Distinct
      · obtain ⟨automaton, -, hparse⟩ := exists_parse_eq_analysed h hsize hdistinct
        exact not_failsWith hparse hparts
      · obtain ⟨at_, hmove⟩ := failsWith_duplicateMove h hsize hdistinct
        cases hparts.unique hmove
    · cases hparts.unique (failsWith_boundaryArity h hsize)
  · intro layout h
    refine ⟨⟨?_, fun hsize => ⟨_, _, failsWith_boundaryArity h hsize⟩⟩, fun hsize => ⟨⟨?_,
      failsWith_duplicateMove h hsize⟩, exists_parse_eq_analysed h hsize⟩⟩
    · rintro ⟨asked, found, hboundary⟩ hsize
      by_cases hdistinct : layout.Distinct
      · obtain ⟨automaton, -, hparse⟩ := exists_parse_eq_analysed h hsize hdistinct
        exact not_failsWith hparse hboundary
      · obtain ⟨at_, hmove⟩ := failsWith_duplicateMove h hsize hdistinct
        cases hboundary.unique hmove
    · rintro ⟨at_, hmove⟩ hdistinct
      obtain ⟨automaton, -, hparse⟩ := exists_parse_eq_analysed h hsize hdistinct
      exact not_failsWith hparse hmove

/-- A text with line ends of all kinds, a symbol and a comment that could be taken for one another,
no final states, a blank line, and a comment that follows a direction directly. -/
def mixedText : String := "1 # letters\r\n1\tB\rB\nq#0\n\n\n q#0 1 q#0 1 right#go on\n"

/-- What the lines of that text say. -/
def mixedLayout : Layout where
  alphabet := ["1"]
  tapeAlphabet := ["1", "B"]
  boundary := ["B"]
  start := "q#0"
  finals := []
  entries := [(⟨"q#0", "1"⟩, ⟨"q#0", "1", .right⟩)]

theorem linesOf_mixedText : linesOf mixedText =
    ["1 # letters".toList, "1\tB".toList, "B".toList, "q#0".toList, [], [],
      " q#0 1 q#0 1 right#go on".toList] := by
  decide +kernel

theorem spells_mixedText : Spells (linesOf mixedText) mixedLayout := by
  have hlater : List.Forall₂ SpellsLine [[], " q#0 1 q#0 1 right#go on".toList]
      [none, some (⟨"q#0", "1"⟩, ⟨"q#0", "1", .right⟩)] :=
    .cons (.blank rfl) (.cons (.entry (.glued "q#0" "1" "q#0" "1" .right "go" ["on"])) .nil)
  rw [linesOf_mixedText]
  exact .intro (by decide) (by decide) (by decide) (by decide) hlater

/-- The text with all these features describes the machine that it seems to describe, and no other
complaint is made about it. -/
theorem parse_mixedText : Spells (linesOf mixedText) mixedLayout ∧
    (¬ ∃ parts, FailsWith mixedText .unbounded (.expected parts)) ∧
    ∃ automaton, mixedLayout.Describes .unbounded automaton ∧
      parse mixedText .unbounded = analysed automaton := by
  have hparse := parse_follows_lines mixedText .unbounded
  refine ⟨spells_mixedText, fun hparts => hparse.1.mp hparts ⟨_, spells_mixedText⟩, ?_⟩
  exact ((hparse.2 mixedLayout spells_mixedText).2 rfl).2 (by decide)

end Descriptor

end TapeGrammar
