import TapeGrammar.Proofs.Descriptor.Parse
import TapeGrammar.Proofs.WellFormed

/-!
# Writing an automaton down

An automaton is written down as a descriptor: five lines for its parts, and one line for each entry of
its transition function.  Every line ends with a line feed, so the text has no white space at its ends
but the line feeds behind its last line that has a token.

A descriptor is trimmed before it is cut into lines.  If the last line has a token, that takes away the
last line feed and no line (`lines_trim`), and reading what was written gives the automaton back.  The
last line is empty only if there are neither entries nor final states.  Then the line of the final
states is lost with it, and the text that is left is no descriptor: a machine that accepts nothing can
be written down only if it has moves (`parse_descriptorText`).
-/

namespace TapeGrammar

namespace Descriptor

open SyntaxError (isLineEnd)
open Text (isWhiteSpace trim)

/-! ## 1. Labels that can be written -/

/-- A label that a descriptor can mention: it is not empty, has no white space and does not begin a
comment. -/
structure Plain (label : String) : Prop where
  ne_nil : label.toList ≠ []
  visible : ∀ c ∈ label.toList, isWhiteSpace c = false
  noComment : label.toList.head? ≠ some '#'

instance (label : String) : Decidable (Plain label) :=
  decidable_of_iff (label.toList ≠ [] ∧ (label.toList.all fun c => !isWhiteSpace c) = true ∧
    label.toList.head? ≠ some '#')
    ⟨fun h => ⟨h.1, by simpa using h.2.1, h.2.2⟩, fun h => ⟨h.1, by simpa using h.2, h.3⟩⟩

variable {label : String} {words : List String} {l l' last r cs blanks : List Char}
  {ls : List (List Char)}

theorem isSeparator_of_visible {c : Char} (h : isWhiteSpace c = false) : isSeparator c = false := by
  by_contra hc
  simp only [isSeparator, Bool.not_eq_false, Bool.or_eq_true, beq_iff_eq] at hc
  rcases hc with rfl | rfl <;> exact absurd h (by decide)

theorem isLineEnd_of_visible {c : Char} (h : isWhiteSpace c = false) : isLineEnd c = false := by
  by_contra hc
  simp only [isLineEnd, Bool.not_eq_false, Bool.or_eq_true, beq_iff_eq] at hc
  rcases hc with rfl | rfl <;> exact absurd h (by decide)

theorem Plain.isWord (h : Plain label) : IsWord label.toList where
  ne_nil := h.ne_nil
  unseparated c hc := isSeparator_of_visible (h.visible c hc)
  beginsComment := by simpa [beginsComment] using h.noComment

theorem Plain.unbroken (h : Plain label) : Unbroken label.toList :=
  fun c hc => isLineEnd_of_visible (h.visible c hc)

theorem plain_direction (direction : Direction) : Plain direction.text := by
  cases direction <;> decide

/-! ## 2. Lines of labels -/

/-- A plain label that is followed by a separator is the first token of a line. -/
theorem Plain.beginsWith (h : Plain label) (hr : AtSeparator r) :
    BeginsWith (label.toList ++ r) label.toList r where
  split := by
    obtain ⟨c, cs, hlabel⟩ := List.exists_cons_of_ne_nil h.ne_nil
    have hc : isSeparator c = false := h.isWord.unseparated c (by simp [hlabel])
    rw [unindented, hlabel, List.cons_append, List.dropWhile_cons_of_neg (by simp [hc])]
  word := h.isWord
  separated := hr

/-- **Labels that are written one after the other are the tokens of their line.** -/
theorem tokens_intercalate (h : ∀ label ∈ words, Plain label) :
    tokens (" ".intercalate words).toList = words := by
  induction words with
  | nil => rfl
  | cons label words ih =>
    have hlabel := h label List.mem_cons_self
    have hwords := ih fun x hx => h x (List.mem_cons_of_mem label hx)
    cases words with
    | nil =>
      have htokens := (hlabel.beginsWith (r := []) (by simp [AtSeparator])).tokens_eq
      rw [List.append_nil, String.ofList_toList] at htokens
      rw [String.intercalate_singleton, htokens]
      rfl
    | cons next words =>
      have hline : (" ".intercalate (label :: next :: words)).toList =
          label.toList ++ ' ' :: (" ".intercalate (next :: words)).toList := by
        simp
      have hskip : ∀ l, tokens (' ' :: l) = tokens l := fun l => by
        rw [tokens, runs_separator (by decide), tokens]
      rw [hline, (hlabel.beginsWith (by simp [AtSeparator, isSeparator])).tokens_eq, hskip, hwords,
        String.ofList_toList]

theorem unbroken_intercalate (h : ∀ label ∈ words, Plain label) :
    Unbroken (" ".intercalate words).toList := by
  induction words with
  | nil => simp [Unbroken]
  | cons label words ih =>
    have hlabel := (h label List.mem_cons_self).unbroken
    have hwords := ih fun x hx => h x (List.mem_cons_of_mem label hx)
    cases words with
    | nil => simpa using hlabel
    | cons next words =>
      intro c hc
      have hline : c ∈ label.toList ∨ c = ' ' ∨ c ∈ (" ".intercalate (next :: words)).toList := by
        simpa using hc
      rcases hline with hc | rfl | hc
      · exact hlabel c hc
      · decide
      · exact hwords c hc

/-! ## 3. The ends of a line -/

/-- A line begins and ends with characters that are no white space. -/
structure Inked (l : List Char) : Prop where
  begins : ∃ c ∈ l.head?, isWhiteSpace c = false
  ends : ∃ c ∈ l.getLast?, isWhiteSpace c = false

/-- What comes between two such lines does not matter. -/
theorem Inked.append (h : Inked l) (h' : Inked l') (cs : List Char) : Inked (l ++ cs ++ l') := by
  obtain ⟨first, hfirst, hvisible⟩ := h.begins
  obtain ⟨final, hfinal, hvisible'⟩ := h'.ends
  refine ⟨⟨first, ?_, hvisible⟩, ⟨final, ?_, hvisible'⟩⟩
  · rw [List.append_assoc]
    exact List.mem_head?_append_of_mem_head? hfirst
  · exact List.mem_getLast?_append_of_mem_getLast? hfinal

theorem Plain.inked (h : Plain label) : Inked label.toList where
  begins := ⟨_, List.head?_eq_some_head h.ne_nil, h.visible _ (List.head_mem _)⟩
  ends := ⟨_, List.getLast?_eq_some_getLast h.ne_nil, h.visible _ (List.getLast_mem _)⟩

theorem inked_intercalate (h : ∀ label ∈ words, Plain label) (hne : words ≠ []) :
    Inked (" ".intercalate words).toList := by
  induction words with
  | nil => exact absurd rfl hne
  | cons label words ih =>
    have hlabel := (h label List.mem_cons_self).inked
    cases words with
    | nil => simpa using hlabel
    | cons next words =>
      have hwords := ih (fun x hx => h x (List.mem_cons_of_mem label hx)) (List.cons_ne_nil _ _)
      have hline : (" ".intercalate (label :: next :: words)).toList =
          label.toList ++ [' '] ++ (" ".intercalate (next :: words)).toList := by
        simp
      rw [hline]
      exact hlabel.append hwords [' ']

/-- Only the white space behind such characters is cut off. -/
theorem trim_append (h : Inked cs) (hblanks : ∀ c ∈ blanks, isWhiteSpace c = true) :
    trim (cs ++ blanks) = cs := by
  obtain ⟨first, hfirst, hvisible⟩ := h.begins
  obtain ⟨final, hfinal, hvisible'⟩ := h.ends
  have hkept : (cs ++ blanks).dropWhile isWhiteSpace = cs ++ blanks := by
    obtain ⟨rest, rfl⟩ := List.head?_eq_some_iff.mp hfirst
    rw [List.cons_append, List.dropWhile_cons_of_neg (by simp [hvisible])]
  have hback : cs.reverse.dropWhile isWhiteSpace = cs.reverse := by
    obtain ⟨front, rfl⟩ := List.getLast?_eq_some_iff.mp hfinal
    rw [List.reverse_append, List.reverse_singleton, List.singleton_append,
      List.dropWhile_cons_of_neg (by simp [hvisible'])]
  rw [trim, hkept, List.reverse_append,
    List.dropWhile_append_of_pos (fun c hc => hblanks c (List.mem_reverse.mp hc)), hback,
    List.reverse_reverse]

/-! ## 4. The lines of a text -/

/-- The characters of lines that end with a line feed each. -/
def joined (ls : List (List Char)) : List Char := ls.flatMap (· ++ ['\n'])

theorem lines_joined (h : ∀ l ∈ ls, Unbroken l) (hlast : Unbroken last) :
    lines (joined ls ++ last) = ls ++ [last] := by
  induction ls with
  | nil =>
    have h := lines_append_of_atLineEnd (e := []) hlast (by simp [AtLineEnd])
    rw [List.append_nil] at h
    exact h
  | cons l ls ih =>
    have hl := h l List.mem_cons_self
    have hls := ih fun x hx => h x (List.mem_cons_of_mem l hx)
    have hjoined : joined (l :: ls) ++ last = l ++ '\n' :: (joined ls ++ last) := by
      simp [joined]
    rw [hjoined, lines_append_of_atLineEnd hl (by simp [AtLineEnd, isLineEnd]),
      laterLines_eq rfl, hls, List.cons_append]

theorem isWhiteSpace_lineFeeds (n : Nat) : ∀ c ∈ List.replicate n '\n', isWhiteSpace c = true := by
  intro c hc
  rw [List.eq_of_mem_replicate hc]
  rfl

/-- **White space behind the last line is no line.** -/
theorem lines_trim {first : List Char} (h : ∀ l ∈ first :: ls, Unbroken l) (hlast : Unbroken last)
    (hfirst : Inked first) (hends : Inked last) (hblanks : ∀ c ∈ blanks, isWhiteSpace c = true) :
    lines (trim (joined (first :: ls) ++ last ++ blanks)) = first :: ls ++ [last] := by
  have hinked : Inked (joined (first :: ls) ++ last) := by
    have hjoined : joined (first :: ls) ++ last = first ++ ('\n' :: joined ls) ++ last := by
      simp [joined]
    rw [hjoined]
    exact hfirst.append hends _
  rw [trim_append hinked hblanks, lines_joined h hlast]

/-! ## 5. Writing a layout -/

/-- The tokens of the line for an entry. -/
def entryLabels : Situation × Move → List String
  | (at_, move) => [at_.state, at_.read, move.next, move.write, move.direction.text]

namespace Layout

/-- The five lines of the header. -/
def headerLines (layout : Layout) : List String :=
  [" ".intercalate layout.alphabet, " ".intercalate layout.tapeAlphabet,
    " ".intercalate layout.boundary, layout.start, " ".intercalate layout.finals]

/-- The lines for the entries. -/
def entryLines (layout : Layout) : List String :=
  layout.entries.map fun entry => " ".intercalate (entryLabels entry)

/-- **The text of a layout**: the header and one line for each entry, every line with a line feed
behind it. -/
def text (layout : Layout) : String :=
  String.join ((layout.headerLines ++ layout.entryLines).map (· ++ "\n"))

/-- Only plain labels are mentioned, and the first three lines are not empty. -/
structure Writable (layout : Layout) : Prop where
  alphabet_ne_nil : layout.alphabet ≠ []
  tapeAlphabet_ne_nil : layout.tapeAlphabet ≠ []
  boundary_ne_nil : layout.boundary ≠ []
  alphabet : ∀ label ∈ layout.alphabet, Plain label
  tapeAlphabet : ∀ label ∈ layout.tapeAlphabet, Plain label
  boundary : ∀ label ∈ layout.boundary, Plain label
  start : Plain layout.start
  finals : ∀ label ∈ layout.finals, Plain label
  entries : ∀ entry ∈ layout.entries, ∀ label ∈ entryLabels entry, Plain label

variable {layout : Layout}

theorem toList_text : layout.text.toList =
    joined ((layout.headerLines ++ layout.entryLines).map String.toList) := by
  simp [text, joined, List.flatMap_map]

/-- No line has a line end within. -/
theorem Writable.unbroken (h : layout.Writable) :
    ∀ l ∈ (layout.headerLines ++ layout.entryLines).map String.toList, Unbroken l := by
  simp only [headerLines, entryLines, List.map_append, List.map_cons, List.map_nil, List.map_map,
    List.mem_append, List.mem_cons, List.not_mem_nil, or_false, List.mem_map]
  rintro l ((rfl | rfl | rfl | rfl | rfl) | ⟨entry, hentry, rfl⟩)
  · exact unbroken_intercalate h.alphabet
  · exact unbroken_intercalate h.tapeAlphabet
  · exact unbroken_intercalate h.boundary
  · exact h.start.unbroken
  · exact unbroken_intercalate h.finals
  · exact unbroken_intercalate (h.entries entry hentry)

/-- The last line begins and ends with a label, unless it is the empty one of the final states. -/
theorem Writable.exists_last (h : layout.Writable)
    (hlast : layout.finals ≠ [] ∨ layout.entries ≠ []) :
    ∃ front last, layout.headerLines ++ layout.entryLines =
        " ".intercalate layout.alphabet :: front ++ [last] ∧ Inked last.toList := by
  rcases List.eq_nil_or_concat layout.entries with hnil | ⟨entries, entry, hentries⟩
  · have hfinals := hlast.resolve_right (not_not_intro hnil)
    refine ⟨[" ".intercalate layout.tapeAlphabet, " ".intercalate layout.boundary, layout.start],
      " ".intercalate layout.finals, ?_, inked_intercalate h.finals hfinals⟩
    simp [headerLines, entryLines, hnil]
  · have hentry : entry ∈ layout.entries := by simp [hentries]
    refine ⟨[" ".intercalate layout.tapeAlphabet, " ".intercalate layout.boundary, layout.start,
        " ".intercalate layout.finals] ++ entries.map fun entry => " ".intercalate (entryLabels entry),
      " ".intercalate (entryLabels entry), ?_,
      inked_intercalate (h.entries entry hentry) (List.cons_ne_nil _ _)⟩
    simp [headerLines, entryLines, hentries]

/-- **The text is cut into the lines that it was made of**, if the last of them is not empty. -/
theorem Writable.linesOf_text (h : layout.Writable)
    (hlast : layout.finals ≠ [] ∨ layout.entries ≠ []) :
    linesOf layout.text = (layout.headerLines ++ layout.entryLines).map String.toList := by
  obtain ⟨front, last, hsplit, hinked⟩ := h.exists_last hlast
  have hunbroken := h.unbroken
  rw [hsplit, List.map_append] at hunbroken
  obtain ⟨hfront, hfinal⟩ := List.forall_mem_append.mp hunbroken
  have htext : joined ((" ".intercalate layout.alphabet :: front ++ [last]).map String.toList) =
      joined ((" ".intercalate layout.alphabet).toList :: front.map String.toList) ++ last.toList ++
        ['\n'] := by
    simp [joined]
  have hblanks : ∀ c ∈ ['\n'], isWhiteSpace c = true := isWhiteSpace_lineFeeds 1
  rw [linesOf, toList_text, hsplit, htext, lines_trim hfront (hfinal _ (by simp))
    (inked_intercalate h.alphabet h.alphabet_ne_nil) hinked hblanks, List.map_append]
  rfl

/-- Without final states and entries the empty last line is lost. -/
theorem Writable.linesOf_text_of_nil (h : layout.Writable) (hfinals : layout.finals = [])
    (hentries : layout.entries = []) :
    linesOf layout.text = [(" ".intercalate layout.alphabet).toList,
      (" ".intercalate layout.tapeAlphabet).toList, (" ".intercalate layout.boundary).toList,
      layout.start.toList] := by
  have hunbroken : ∀ l ∈ [(" ".intercalate layout.alphabet).toList,
      (" ".intercalate layout.tapeAlphabet).toList, (" ".intercalate layout.boundary).toList],
      Unbroken l :=
    List.forall_mem_cons.mpr ⟨unbroken_intercalate h.alphabet,
      List.forall_mem_cons.mpr ⟨unbroken_intercalate h.tapeAlphabet,
        List.forall_mem_singleton.mpr (unbroken_intercalate h.boundary)⟩⟩
  have htext : joined ((layout.headerLines ++ layout.entryLines).map String.toList) =
      joined [(" ".intercalate layout.alphabet).toList, (" ".intercalate layout.tapeAlphabet).toList,
        (" ".intercalate layout.boundary).toList] ++ layout.start.toList ++ ['\n', '\n'] := by
    simp [joined, headerLines, entryLines, hfinals, hentries]
  have hblanks : ∀ c ∈ ['\n', '\n'], isWhiteSpace c = true := isWhiteSpace_lineFeeds 2
  rw [linesOf, toList_text, htext, lines_trim hunbroken h.start.unbroken
    (inked_intercalate h.alphabet h.alphabet_ne_nil) h.start.inked hblanks]
  rfl

/-- **What is written is what is read.** -/
theorem Writable.spells (h : layout.Writable)
    (hlast : layout.finals ≠ [] ∨ layout.entries ≠ []) : Spells (linesOf layout.text) layout := by
  have hstart : tokens layout.start.toList = [layout.start] := by
    have hone : tokens (" ".intercalate [layout.start]).toList = [layout.start] :=
      tokens_intercalate (List.forall_mem_singleton.mpr h.start)
    rwa [String.intercalate_singleton] at hone
  have hentries : List.Forall₂ SpellsLine (layout.entryLines.map String.toList)
      (layout.entries.map some) := by
    rw [entryLines, List.map_map, List.forall₂_map_left_iff, List.forall₂_map_right_iff]
    refine List.forall₂_same.mpr fun entry hentry => .entry ?_
    rw [Function.comp, tokens_intercalate (h.entries entry hentry)]
    exact .separate _ _ _ _ _
  have hspells : Spells ((layout.headerLines ++ layout.entryLines).map String.toList) _ :=
    .intro (by rw [tokens_intercalate h.alphabet]; exact h.alphabet_ne_nil)
      (by rw [tokens_intercalate h.tapeAlphabet]; exact h.tapeAlphabet_ne_nil)
      (by rw [tokens_intercalate h.boundary]; exact h.boundary_ne_nil) hstart hentries
  rw [tokens_intercalate h.alphabet, tokens_intercalate h.tapeAlphabet,
    tokens_intercalate h.boundary, tokens_intercalate h.finals] at hspells
  rw [h.linesOf_text hlast]
  simpa using hspells

/-- Four lines are no descriptor. -/
theorem Writable.not_spells (h : layout.Writable) (hfinals : layout.finals = [])
    (hentries : layout.entries = []) (other : Layout) : ¬ Spells (linesOf layout.text) other := by
  rw [h.linesOf_text_of_nil hfinals hentries]
  intro hspells
  cases hspells

end Layout

end Descriptor

/-! ## 6. Writing an automaton -/

namespace Automaton

open Descriptor

/-- The parts of an automaton in the order of a descriptor. -/
def layout (a : Automaton) : Layout where
  alphabet := a.alphabet.toList
  tapeAlphabet := a.tapeAlphabet.toList
  boundary := a.boundary.symbols
  start := a.start
  finals := a.finals.toList
  entries := a.entries

/-- The automaton written down. -/
def descriptorText (a : Automaton) : String := a.layout.text

/-- Everything that the automaton mentions can be written. -/
def Nameable (a : Automaton) : Prop :=
  ∀ label, a.isSymbol label = true ∨ a.isState label = true → Plain label

variable {a : Automaton}

theorem nameable_iff :
    a.Nameable ↔ ∀ label ∈ a.alphabet.toList ++ a.tapeAlphabet.toList ++ a.states.toList,
      Plain label := by
  simp only [Nameable, isSymbol, isState, Bool.or_eq_true, ← Std.ExtTreeSet.mem_iff_contains,
    List.mem_append, Std.ExtTreeSet.mem_toList]

instance (a : Automaton) : Decidable a.Nameable := decidable_of_iff _ nameable_iff.symm

/-- The automaton is described by its own layout. -/
theorem describes_layout : a.layout.Describes a.kind a where
  kind := rfl
  alphabet _ := Std.ExtTreeSet.mem_toList.symm
  tapeAlphabet _ := Std.ExtTreeSet.mem_toList.symm
  boundary := rfl
  start := rfl
  finals _ := Std.ExtTreeSet.mem_toList.symm
  moves _ _ := Std.ExtTreeMap.mem_toList_iff_getElem?_eq_some.symm

/-- The entries of a transition function are for different situations. -/
theorem distinct_layout : a.layout.Distinct := by
  refine List.pairwise_map.mpr (Std.ExtTreeMap.distinct_keys_toList.imp ?_)
  intro entry entry' hne heq
  exact hne (by rw [heq]; exact Std.ReflCmp.compare_self)

/-- What delimits the tape consists of symbols. -/
theorem isSymbol_of_mem_boundary (ha : a.WellFormed) {symbol : String}
    (h : symbol ∈ a.boundary.symbols) : a.isSymbol symbol = true := by
  cases hb : a.boundary with
  | blank blank =>
    obtain rfl : symbol = blank := by simpa [hb, Boundary.symbols] using h
    exact isSymbol_of_mem_tape (ha.blank_mem_tape hb)
  | markers left right =>
    have hmarkers := (ha.markers_distinct hb).2
    rw [hb, Boundary.symbols] at h
    rcases List.mem_pair.mp h with rfl | rfl
    · exact hmarkers.1
    · exact hmarkers.2

theorem isSymbol_of_isKnown (ha : a.WellFormed) {symbol : String} (h : a.isKnown symbol = true) :
    a.isSymbol symbol = true := by
  simp only [isKnown, Bool.or_eq_true] at h
  rcases h with htape | hmarker
  · exact isSymbol_of_mem_tape (Std.ExtTreeSet.mem_iff_contains.mpr htape)
  · refine isSymbol_of_mem_boundary ha ?_
    unfold isMarker at hmarker
    cases hb : a.boundary <;> simp_all [Boundary.symbols]

/-- The tape alphabet holds at least one letter or marker. -/
theorem tapeAlphabet_ne_nil (ha : a.WellFormed) : a.tapeAlphabet.toList ≠ [] := by
  obtain ⟨symbol, hsymbol⟩ : ∃ symbol, symbol ∈ a.tapeAlphabet := by
    cases hb : a.boundary with
    | blank blank => exact ⟨blank, ha.blank_mem_tape hb⟩
    | markers left right =>
      obtain ⟨letter, hletter⟩ := List.exists_mem_of_ne_nil _ (ha.inputs_ne_nil hb)
      exact ⟨letter, ha.input_mem_tape hletter⟩
  exact List.ne_nil_of_mem (Std.ExtTreeSet.mem_toList.mpr hsymbol)

theorem writable_layout (ha : a.WellFormed) (hinputs : a.alphabet.toList ≠ [])
    (hnames : a.Nameable) : a.layout.Writable where
  alphabet_ne_nil := hinputs
  tapeAlphabet_ne_nil := tapeAlphabet_ne_nil ha
  boundary_ne_nil := by
    unfold layout Boundary.symbols
    split <;> exact List.cons_ne_nil _ _
  alphabet label h := hnames label (Or.inl (by simp_all [layout, isSymbol]))
  tapeAlphabet label h := hnames label (Or.inl (by simp_all [layout, isSymbol]))
  boundary label h := hnames label (Or.inl (isSymbol_of_mem_boundary ha h))
  start := hnames _ (Or.inr isState_start)
  finals label h := hnames label (Or.inr (isState_of_isFinal (by simp_all [layout, isFinal])))
  entries := by
    rintro ⟨at_, move⟩ hentry label hlabel
    have hmove := mem_entries_iff.mp hentry
    obtain ⟨hread, hwrite⟩ := ha.isKnown_of_move? hmove
    simp only [entryLabels, List.mem_cons, List.not_mem_nil, or_false] at hlabel
    rcases hlabel with rfl | rfl | rfl | rfl | rfl
    · exact hnames _ (Or.inr (isState_of_move? hmove))
    · exact hnames _ (Or.inl (isSymbol_of_isKnown ha hread))
    · exact hnames _ (Or.inr (isState_next hmove))
    · exact hnames _ (Or.inl (isSymbol_of_isKnown ha hwrite))
    · exact plain_direction move.direction

end Automaton

namespace Descriptor

variable {a : Automaton}

/-- Without final states and moves, what was written down is malformed. -/
theorem failsWith_descriptorText (ha : a.WellFormed) (hinputs : a.alphabet.toList ≠ [])
    (hnames : a.Nameable) (hfinals : a.finals.toList = []) (hentries : a.entries = []) :
    ∃ parts, FailsWith a.descriptorText a.kind (.expected parts) :=
  failsWith_expected fun other =>
    (Automaton.writable_layout ha hinputs hnames).not_spells hfinals hentries other

/-- **Every well-formed automaton that has a final state or a move can be written down.**  If its
input alphabet is not empty and a descriptor can mention its labels, reading the text of the automaton
gives the automaton back.  Without final states and moves the text is malformed. -/
theorem parse_descriptorText (ha : a.WellFormed) (hinputs : a.alphabet.toList ≠ [])
    (hnames : a.Nameable) :
    (parse a.descriptorText a.kind = .ok a ↔ a.finals.toList ≠ [] ∨ a.entries ≠ []) ∧
      (a.finals.toList = [] → a.entries = [] →
        ∃ parts, FailsWith a.descriptorText a.kind (.expected parts)) := by
  refine ⟨⟨fun hparse => ?_, fun hlast => ?_⟩, failsWith_descriptorText ha hinputs hnames⟩
  · by_contra hnone
    rw [not_or, not_not, not_not] at hnone
    obtain ⟨parts, error, herror, -⟩ := failsWith_descriptorText ha hinputs hnames hnone.1 hnone.2
    rw [hparse] at herror
    cases herror
  · have hspells := (Automaton.writable_layout ha hinputs hnames).spells hlast
    have hsize : a.layout.boundary.length = a.kind.boundarySize := by
      unfold Automaton.layout Automaton.kind
      cases a.boundary <;> rfl
    obtain ⟨b, hdescribes, hparse⟩ :=
      exists_parse_eq_analysed hspells hsize Automaton.distinct_layout
    rw [Automaton.descriptorText, hparse, ← Automaton.describes_layout.unique hdescribes,
      analysed_of_wellFormed ha]

/-- A machine whose labels look like a keyword and a comment, and that accepts nothing. -/
def mimic : Automaton where
  alphabet := .ofList ["a#b"]
  tapeAlphabet := .ofList ["a#b", "B"]
  boundary := .blank "B"
  start := "left"
  finals := ∅
  delta := .ofList [(Situation.mk "left" "a#b", Move.mk "left" "a#b" .right)]

/-- The mimic can be written down, with an empty line for its final states. -/
theorem parse_mimic :
    mimic.descriptorText = "a#b\nB a#b\nB\nleft\n\nleft a#b left a#b right\n" ∧
      parse mimic.descriptorText mimic.kind = .ok mimic := by
  refine ⟨by decide +kernel, ?_⟩
  exact (parse_descriptorText (by decide) (by decide) (by decide)).1.mpr (Or.inr (by decide))

/-- A machine that accepts nothing and makes no move. -/
def mute : Automaton where
  alphabet := .ofList ["1"]
  tapeAlphabet := .ofList ["1", "B"]
  boundary := .blank "B"
  start := "q0"
  finals := ∅
  delta := ∅

/-- **The mute machine cannot be written down**, although nothing is wrong with it or its labels. -/
theorem mute_not_parsed :
    mute.WellFormed ∧ mute.alphabet.toList ≠ [] ∧ mute.Nameable ∧
      mute.descriptorText = "1\n1 B\nB\nq0\n\n" ∧
      parse mute.descriptorText mute.kind ≠ .ok mute := by
  have hwell : mute.WellFormed := by decide
  have hinputs : mute.alphabet.toList ≠ [] := by decide
  have hnames : mute.Nameable := by decide
  refine ⟨hwell, hinputs, hnames, by decide +kernel, fun hparse => ?_⟩
  obtain ⟨parts, error, herror, -⟩ :=
    failsWith_descriptorText hwell hinputs hnames (by decide) (by decide)
  rw [hparse] at herror
  cases herror

end Descriptor

end TapeGrammar
