import TapeGrammar.Proofs.Descriptor.HeaderLines

/-!
# The sections are what the lines say

The lines behind the header are treated like those of the header: a line that defines a move, or
that has no token, is read as a whole.  Any other line is read in part only.  What is left of it is
neither nothing nor a line end, so no further line is read and the end of the text is missed.

Together with the header that gives the main result of this module: the sections are found exactly if
the lines spell a layout, and they are that layout (`reads_sections`, `misses_sections`).
-/

namespace TapeGrammar.Descriptor

open Reader

variable {l e r w cs rest : List Char} {found : Option (Situation × Move)}
  {entry : Situation × Move}

/-! ## 1. Entries -/

theorem isSymbolChar_of_mem_text {d : Direction} : ∀ c ∈ d.text.toList, isSymbolChar c = true :=
  List.all_eq_true.mp (by cases d <;> decide)

theorem reads_direction (d : Direction) : Reads direction (d.text.toList ++ cs) (· = d) cs := by
  cases d with
  | left =>
    exact (Reads.bind (reads_literal.optional : Reads (optional (literal "left".toList)) _ _ cs)
      fun keyword hkeyword => by
        obtain ⟨_, rfl, -⟩ := hkeyword
        exact reads_pure rfl).named
  | right =>
    have hnot : ¬ "left".toList <+: "right".toList ++ cs := by
      rintro ⟨rest, hrest⟩
      exact absurd (List.cons.inj hrest).1 (by decide)
    refine ((misses_literal hnot).optional.bind fun keyword hkeyword => ?_).named
    subst hkeyword
    exact reads_literal.bind fun _ _ => reads_pure rfl

theorem misses_direction (h : ∀ d : Direction, ¬ d.text.toList <+: cs) : Misses direction cs := by
  refine ((misses_literal (h .left)).optional.bind_misses fun keyword hkeyword => ?_).named
  subst hkeyword
  exact (misses_literal (h .right)).bind

/-- A direction behind separators. -/
def nextDirection : Reader Direction := do
  separator
  direction

theorem transition_eq : transition = named .transition (do
    let state ← symbol
    let read ← nextSymbol
    let next ← nextSymbol
    let write ← nextSymbol
    let direction ← nextDirection
    return (⟨state, read⟩, ⟨next, write, direction⟩)) := by
  simp [transition, nextSymbol, nextDirection]

/-- An entry stands at the front of the line `l`, and the line goes on with `m`. -/
inductive EntryAt : List Char → Situation × Move → List Char → Prop
  | intro {l l₁ l₂ l₃ l₄ l₅ state read next write tail : List Char} {direction : Direction} :
    BeginsWith l state l₁ → BeginsWith l₁ read l₂ → BeginsWith l₂ next l₃ →
    BeginsWith l₃ write l₄ → BeginsWith l₄ (direction.text.toList ++ tail) l₅ →
    EntryAt l (⟨String.ofList state, String.ofList read⟩,
      ⟨String.ofList next, String.ofList write, direction⟩) (tail ++ l₅)

theorem EntryAt.suffix (h : EntryAt l entry r) : r <:+ l := by
  obtain ⟨h₁, h₂, h₃, h₄, h₅⟩ := h
  have hword := h₅.suffix
  rw [List.append_assoc] at hword
  have hsuffix := h₄.rest_suffix.trans (h₃.rest_suffix.trans (h₂.rest_suffix.trans h₁.rest_suffix))
  exact (List.suffix_append _ _).trans (hword.trans hsuffix)

theorem reads_nextDirection {d : Direction} {tail : List Char} (hl : AtSeparator l)
    (h : BeginsWith l (d.text.toList ++ tail) r) (he : AtLineEnd e) :
    Reads nextDirection (l ++ e) (· = d) (tail ++ r ++ e) := by
  have hne : l ≠ [] := fun hnil => absurd h.length_lt (by simp [hnil])
  refine (reads_separator he hl hne).bind fun _ _ => ?_
  rw [h.split, List.append_assoc, List.append_assoc, List.append_assoc]
  exact reads_direction d

theorem misses_nextDirection (hl : AtSeparator l) (he : AtLineEnd e)
    (h : ∀ (d : Direction) tail r, ¬ BeginsWith l (d.text.toList ++ tail) r) :
    Misses nextDirection (l ++ e) := by
  by_cases hne : l = []
  · subst hne
    exact (misses_separator he).bind
  refine (reads_separator he hl hne).bind_misses fun _ _ => misses_direction fun d hd => ?_
  rcases bare_or_beginsWith l with (hnil | ⟨comment, hcomment⟩) | ⟨w, r, hbegins⟩
  · rw [hnil] at hd
    have hstop : AtStop e := atStop_append (r := []) (by simp [AtSeparator]) he
    have := prefix_of_prefix_append isSymbolChar_of_mem_text hstop hd
    cases d <;> simp [Direction.text] at this
  · rw [hcomment] at hd
    obtain ⟨rest, hrest⟩ := hd
    cases d <;> exact absurd (List.cons.inj hrest).1 (by decide)
  · rw [hbegins.split, List.append_assoc] at hd
    obtain ⟨tail, rfl⟩ := prefix_of_prefix_append isSymbolChar_of_mem_text
      (atStop_append hbegins.separated he) hd
    exact h d tail r hbegins

theorem reads_transition (h : EntryAt l entry r) (hl : Unbroken l) (he : AtLineEnd e) :
    Reads transition (unindented l ++ e) (· = entry) (r ++ e) := by
  obtain ⟨h₁, h₂, h₃, h₄, h₅⟩ := h
  have hl₁ := (h₁.unbroken hl).2
  have hl₂ := (h₂.unbroken hl₁).2
  have hl₃ := (h₃.unbroken hl₂).2
  rw [transition_eq]
  refine Reads.named ((reads_word h₁ hl he).bind fun state hstate => ?_)
  refine (reads_nextSymbol h₁.separated h₂ hl₁ he).bind fun read hread => ?_
  refine (reads_nextSymbol h₂.separated h₃ hl₂ he).bind fun next hnext => ?_
  refine (reads_nextSymbol h₃.separated h₄ hl₃ he).bind fun write hwrite => ?_
  refine (reads_nextDirection h₄.separated h₅ he).bind fun direction hdirection => ?_
  rw [hstate, hread, hnext, hwrite, hdirection]
  exact reads_pure rfl

theorem misses_transition (h : ∀ entry r, ¬ EntryAt l entry r) (hl : Unbroken l)
    (he : AtLineEnd e) : Misses transition (unindented l ++ e) := by
  rw [transition_eq]
  refine Misses.named ?_
  rcases bare_or_beginsWith l with hbare | ⟨state, l₁, h₁⟩
  · exact (misses_word hbare he).bind
  have hl₁ := (h₁.unbroken hl).2
  refine (reads_word h₁ hl he).bind_misses fun _ _ => ?_
  rcases bare_or_beginsWith l₁ with hbare | ⟨read, l₂, h₂⟩
  · exact (misses_nextSymbol h₁.separated hbare he).bind
  have hl₂ := (h₂.unbroken hl₁).2
  refine (reads_nextSymbol h₁.separated h₂ hl₁ he).bind_misses fun _ _ => ?_
  rcases bare_or_beginsWith l₂ with hbare | ⟨next, l₃, h₃⟩
  · exact (misses_nextSymbol h₂.separated hbare he).bind
  have hl₃ := (h₃.unbroken hl₂).2
  refine (reads_nextSymbol h₂.separated h₃ hl₂ he).bind_misses fun _ _ => ?_
  rcases bare_or_beginsWith l₃ with hbare | ⟨write, l₄, h₄⟩
  · exact (misses_nextSymbol h₃.separated hbare he).bind
  refine (reads_nextSymbol h₃.separated h₄ hl₃ he).bind_misses fun _ _ => ?_
  refine (misses_nextDirection h₄.separated he fun d tail l₅ h₅ => ?_).bind
  exact h _ _ (.intro h₁ h₂ h₃ h₄ h₅)

/-- Five tokens, the last of which begins with a direction, are an entry and what follows it. -/
theorem exists_entryAt {state read next write : String} {direction : Direction}
    {tail : List Char} {more : List String}
    (h : tokens l = state :: read :: next :: write :: (direction.text ++ String.ofList tail) :: more) :
    ∃ r, EntryAt l (⟨state, read⟩, ⟨next, write, direction⟩) (tail ++ r) ∧ tokens r = more := by
  obtain ⟨state, l₁, h₁, rfl, hmore₁⟩ := exists_beginsWith h
  obtain ⟨read, l₂, h₂, rfl, hmore₂⟩ := exists_beginsWith hmore₁.symm
  obtain ⟨next, l₃, h₃, rfl, hmore₃⟩ := exists_beginsWith hmore₂.symm
  obtain ⟨write, l₄, h₄, rfl, hmore₄⟩ := exists_beginsWith hmore₃.symm
  obtain ⟨word, l₅, h₅, hword, hmore₅⟩ := exists_beginsWith hmore₄.symm
  have hword' : word = direction.text.toList ++ tail := by
    have := congrArg String.toList hword
    simpa using this.symm
  subst hword'
  exact ⟨l₅, .intro h₁ h₂ h₃ h₄ h₅, hmore₅.symm⟩

/-- **A line spells an entry** exactly if an entry stands at its front and the line is bare behind
it. -/
theorem spellsEntry_iff : SpellsEntry (tokens l) entry ↔ ∃ r, EntryAt l entry r ∧ Bare r := by
  constructor
  · intro h
    generalize htokens : tokens l = all at h
    cases h with
    | separate state read next write direction =>
      have hnil : direction.text = direction.text ++ String.ofList [] := by simp
      rw [hnil] at htokens
      obtain ⟨r, hentry, hr⟩ := exists_entryAt htokens
      exact ⟨_, hentry, tokens_eq_nil_iff.mp hr⟩
    | glued state read next write direction comment more =>
      have hcons : direction.text ++ "#" ++ comment =
          direction.text ++ String.ofList ('#' :: comment.toList) := by
        apply String.toList_injective
        simp
      rw [hcons] at htokens
      obtain ⟨r, hentry, -⟩ := exists_entryAt htokens
      exact ⟨_, hentry, .inr ⟨comment.toList ++ r, rfl⟩⟩
  · rintro ⟨r, @⟨_, _, _, _, l₅, _, _, _, _, tail, direction, h₁, h₂, h₃, h₄, h₅⟩, hbare⟩
    rw [h₁.tokens_eq, h₂.tokens_eq, h₃.tokens_eq, h₄.tokens_eq, h₅.tokens_eq]
    cases tail with
    | nil =>
      rw [tokens_of_bare (show Bare l₅ from hbare), List.append_nil, String.ofList_toList]
      exact .separate ..
    | cons c tail =>
      -- the run goes on behind the direction, so what it goes on with begins a comment
      have hc : isSeparator c = false := h₅.word.unseparated c (by simp)
      have hsame : unindented (c :: tail ++ l₅) = c :: tail ++ l₅ :=
        List.dropWhile_cons_of_neg (by simp [hc])
      have hcomment : c = '#' := by
        rcases hbare with hnil | ⟨comment, hcomment⟩
        · rw [hsame] at hnil
          cases hnil
        · rw [hsame] at hcomment
          exact (List.cons.inj hcomment).1
      have hglued : String.ofList (direction.text.toList ++ c :: tail) =
          direction.text ++ "#" ++ String.ofList tail := by
        apply String.toList_injective
        simp [hcomment]
      rw [hglued]
      exact .glued ..

/-! ## 2. A line behind the header -/

theorem line_eq : line = (do
    skipSeparators
    let entry ← optional (located transition)
    skipRest
    return entry) := by
  simp [line, skipRest]

/-- Without an entry at its front a line is read up to its first token. -/
theorem reads_line_of_miss {P : Unit → Prop} (hmiss : ∀ entry r, ¬ EntryAt l entry r)
    (hrest : Reads skipRest (unindented l ++ e) P rest) (hl : Unbroken l) (he : AtLineEnd e) :
    Reads line (l ++ e) (fun entry => entry.map Located.value = none) rest := by
  rw [line_eq]
  refine (reads_skipSeparators he).bind fun _ _ => ?_
  refine (misses_transition hmiss hl he).located.optional.bind fun entry hentry => ?_
  refine hrest.bind fun _ _ => reads_pure ?_
  rw [hentry, Option.map_none]

/-- An entry at the front of a line is read. -/
theorem reads_line_of_entryAt {P : Unit → Prop} (hentry : EntryAt l entry r)
    (hrest : Reads skipRest (r ++ e) P rest) (hl : Unbroken l) (he : AtLineEnd e) :
    Reads line (l ++ e) (fun entry' => entry'.map Located.value = some entry) rest := by
  rw [line_eq]
  refine (reads_skipSeparators he).bind fun _ _ => ?_
  refine (reads_transition hentry hl he).located.optional.bind fun entry hentry => ?_
  obtain ⟨place, rfl, hplace⟩ := hentry
  refine hrest.bind fun _ _ => reads_pure ?_
  rw [Option.map_some, hplace]

/-- **A line that spells something is read as a whole.** -/
theorem reads_line (h : SpellsLine l found) (hl : Unbroken l) (he : AtLineEnd e) :
    Reads line (l ++ e) (fun entry => entry.map Located.value = found) e := by
  cases h with
  | blank htokens =>
    have hbare := tokens_eq_nil_iff.mp htokens
    refine reads_line_of_miss (fun entry r hentry => ?_)
      (reads_skipRest (bare_unindented_iff.mpr hbare) hl.unindented he) hl he
    obtain ⟨h₁, -⟩ := hentry
    rw [h₁.tokens_eq] at htokens
    cases htokens
  | entry hentry =>
    obtain ⟨r, hat, hbare⟩ := spellsEntry_iff.mp hentry
    exact reads_line_of_entryAt hat (reads_skipRest hbare (hl.of_suffix hat.suffix) he) hl he

/-- **Of any other line something is left.** -/
theorem reads_line_of_not (h : ∀ found, ¬ SpellsLine l found) (hl : Unbroken l)
    (he : AtLineEnd e) : ∃ found r, r ≠ [] ∧ r <:+ l ∧
      Reads line (l ++ e) (fun entry => entry.map Located.value = found) (r ++ e) := by
  -- a token that is not passed over
  have hleft : ∀ {m w r : List Char}, BeginsWith m w r → unindented m ≠ [] := fun hbegins => by
    rw [hbegins.split]
    exact List.append_ne_nil_of_left_ne_nil hbegins.word.ne_nil _
  by_cases hentry : ∃ entry r, EntryAt l entry r
  · obtain ⟨entry, r, hentry⟩ := hentry
    rcases bare_or_beginsWith r with hbare | ⟨w, r', hbegins⟩
    · exact absurd (.entry (spellsEntry_iff.mpr ⟨r, hentry, hbare⟩)) (h (some entry))
    · exact ⟨some entry, unindented r, hleft hbegins,
        (List.dropWhile_suffix _).trans hentry.suffix,
        reads_line_of_entryAt hentry (reads_skipRest_of_beginsWith hbegins he) hl he⟩
  · have hmiss : ∀ entry r, ¬ EntryAt l entry r := fun entry r hat => hentry ⟨entry, r, hat⟩
    rcases bare_or_beginsWith l with hbare | ⟨w, r, hbegins⟩
    · exact absurd (.blank (tokens_of_bare hbare)) (h none)
    · have hagain : BeginsWith (unindented l) w r :=
        ⟨by rw [unindented_unindented, hbegins.split], hbegins.word, hbegins.separated⟩
      have hrest := reads_skipRest_of_beginsWith hagain he
      rw [unindented_unindented] at hrest
      exact ⟨none, unindented l, hleft hbegins, List.dropWhile_suffix _,
        reads_line_of_miss hmiss hrest hl he⟩

/-! ## 3. The lines behind the header -/

/-- A further line. -/
def furtherLine : Reader (Option (Located (Situation × Move))) := do
  lineEnd
  line

/-- What a line gives when it is read. -/
def FoundLine (found : Option (Situation × Move)) (entry : Option (Located (Situation × Move))) :
    Prop :=
  entry.map Located.value = found

theorem misses_furtherLine (h : behindLineEnd? cs = none) : Misses furtherLine cs :=
  (misses_lineEnd h).bind

theorem reads_furtherLine (h : behindLineEnd? e = some cs)
    (hline : Reads line cs (FoundLine found) rest) : Reads furtherLine e (FoundLine found) rest :=
  (reads_lineEnd h).bind fun _ _ => hline

/-- **Lines that spell something are read up to the end of the text.** -/
theorem repeats_furtherLine {all : List (Option (Situation × Move))} (he : AtLineEnd e)
    (h : List.Forall₂ SpellsLine (laterLines e) all) :
    Repeats furtherLine FoundLine e all [] := by
  generalize hlater : laterLines e = later at h
  induction h generalizing e with
  | nil =>
    obtain rfl := eq_nil_of_laterLines he hlater
    exact .stop (misses_furtherLine rfl)
  | cons hline _ ih =>
    obtain ⟨e', hbehind, hl, he', hmore⟩ := exists_of_laterLines hlater
    have hlt := length_of_behindLineEnd? hbehind
    rw [List.length_append] at hlt
    exact .turn (reads_furtherLine hbehind (reads_line hline hl he')) (by omega)
      (ih he' hmore.symm)

/-- **If a line does not spell anything, the end of the text is not reached.** -/
theorem repeats_furtherLine_of_not (he : AtLineEnd e)
    (h : ∀ all, ¬ List.Forall₂ SpellsLine (laterLines e) all) :
    ∃ all rest, rest ≠ [] ∧ Repeats furtherLine FoundLine e all rest := by
  generalize hlater : laterLines e = later at h
  induction later generalizing e with
  | nil => exact absurd .nil (h [])
  | cons l more ih =>
    obtain ⟨e', hbehind, hl, he', hmore⟩ := exists_of_laterLines hlater
    have hlt := length_of_behindLineEnd? hbehind
    rw [List.length_append] at hlt
    by_cases hspells : ∃ found, SpellsLine l found
    · obtain ⟨found, hfound⟩ := hspells
      obtain ⟨all, rest, hne, hrepeats⟩ :=
        ih he' hmore.symm fun all hall => h (found :: all) (.cons hfound hall)
      exact ⟨found :: all, rest, hne, .turn (reads_furtherLine hbehind (reads_line hfound hl he'))
        (by omega) hrepeats⟩
    · -- reading stops in the line
      obtain ⟨found, r, hne, hsuffix, hreads⟩ :=
        reads_line_of_not (fun found hfound => hspells ⟨found, hfound⟩) hl he'
      have hlength := hsuffix.length_le
      refine ⟨[found], r ++ e', List.append_ne_nil_of_left_ne_nil hne _,
        .turn (reads_furtherLine hbehind hreads) ?_ (.stop (misses_furtherLine ?_))⟩
      · rw [List.length_append]
        omega
      · exact behindLineEnd?_append (hl.of_suffix hsuffix) hne

/-! ## 4. The whole text -/

/-- What sections say, without the places at which they say it. -/
def Sections.layout (s : Sections) : Layout where
  alphabet := s.alphabet
  tapeAlphabet := s.tapeAlphabet
  boundary := s.boundary.value
  start := s.start
  finals := s.finals
  entries := s.entries.map Located.value

theorem sections_eq : sections = named .descriptor (do
    let alphabet ← headerLine (named .alphabet symbols)
    let tapeAlphabet ← headerLine (named .tapeAlphabet symbols)
    let boundary ← headerLine (named .boundary (located symbols))
    let start ← headerLine (named .start symbol)
    skipSeparators
    let finals ← named .finals (optional symbols)
    let first ← line
    let others ← many furtherLine
    named .endOfText endOfText
    return {
      alphabet, tapeAlphabet, boundary, start
      finals := finals.getD []
      entries := (first :: others).filterMap id }) := by
  simp [sections, headerLine, furtherLine]

/-- The line of the final states may be empty. -/
theorem reads_finals (hl : Unbroken l) (he : AtLineEnd e) :
    ∃ r, Unbroken r ∧ tokens r = [] ∧ Reads (named .finals (optional symbols))
      (unindented l ++ e) (fun finals => finals.getD [] = tokens l) (r ++ e) := by
  by_cases htokens : tokens l = []
  · have hbare := bare_unindented_iff.mpr (tokens_eq_nil_iff.mp htokens)
    refine ⟨unindented l, hl.unindented, tokens_of_bare hbare, ?_⟩
    exact ((misses_symbols htokens he).optional.mono fun finals hfinals => by
      rw [hfinals, htokens, Option.getD_none]).named
  · obtain ⟨r, hr, hnil, hreads⟩ := reads_symbols htokens hl he
    refine ⟨r, hr, hnil, (hreads.optional.mono fun finals hfinals => ?_).named⟩
    obtain ⟨value, rfl, hvalue⟩ := hfinals
    rw [Option.getD_some, hvalue]

/-- The entries that are found on the lines behind the header. -/
theorem map_filterMap_of_forall₂ {all : List (Option (Situation × Move))}
    {others : List (Option (Located (Situation × Move)))}
    (h : List.Forall₂ FoundLine all others) :
    (others.filterMap id).map Located.value = all.filterMap id := by
  induction h with
  | nil => rfl
  | @cons found entry all others hline _ ih =>
    subst hline
    cases entry with
    | none => exact ih
    | some place => exact congrArg (place.value :: ·) ih

/-- **The sections of a text whose lines spell a layout are that layout.** -/
theorem reads_sections {layout : Layout} (h : Spells (lines cs) layout) :
    Reads sections cs (fun found => found.layout = layout) [] := by
  generalize hlines : lines cs = all at h
  obtain ⟨halphabet, htape, hboundary, hstart, hlater⟩ := h
  obtain ⟨e₁, rfl, hl₁, he₁, hlines₁⟩ := exists_of_lines hlines
  obtain ⟨e₂, hbehind₁, hl₂, he₂, hlines₂⟩ := exists_of_laterLines hlines₁.symm
  obtain ⟨e₃, hbehind₂, hl₃, he₃, hlines₃⟩ := exists_of_laterLines hlines₂.symm
  obtain ⟨e₄, hbehind₃, hl₄, he₄, hlines₄⟩ := exists_of_laterLines hlines₃.symm
  obtain ⟨e₅, hbehind₄, hl₅, he₅, rfl⟩ := exists_of_laterLines hlines₄.symm
  rw [sections_eq]
  refine Reads.named ?_
  refine (reads_symbolsLine Reads.named hl₁ he₁ halphabet hbehind₁).bind fun alphabet ha => ?_
  refine (reads_symbolsLine Reads.named hl₂ he₂ htape hbehind₂).bind fun tape ht => ?_
  refine (reads_symbolsLine (fun h => h.located.named) hl₃ he₃ hboundary hbehind₃).bind
    fun boundary hb => ?_
  refine (reads_symbolLine hl₄ he₄ hstart hbehind₄).bind fun start hs => ?_
  obtain ⟨r, hr, hnil, hfinals⟩ := reads_finals hl₅ he₅
  refine (reads_skipSeparators he₅).bind fun _ _ => hfinals.bind fun finals hf => ?_
  refine (reads_line (.blank hnil) hr he₅).bind fun first hfirst => ?_
  refine (repeats_furtherLine he₅ hlater).many.bind fun others hothers => ?_
  refine reads_endOfText.named.bind fun _ _ => reads_pure ?_
  obtain rfl := Option.map_eq_none_iff.mp hfirst
  rw [Sections.layout, ha, ht, hb, hs, hf, List.filterMap_cons_none rfl,
    map_filterMap_of_forall₂ hothers]

/-- **No sections are found in any other text.** -/
theorem misses_sections (h : ∀ layout, ¬ Spells (lines cs) layout) : Misses sections cs := by
  rw [sections_eq]
  refine Misses.named ?_
  rcases symbolsLine_cases Reads.named Misses.named cs with hmiss | ⟨l₁, cs₂, hlines₁, h₁, hreads₁⟩
  · exact hmiss.bind
  refine hreads₁.bind_misses fun _ _ => ?_
  rcases symbolsLine_cases Reads.named Misses.named cs₂ with
    hmiss | ⟨l₂, cs₃, hlines₂, h₂, hreads₂⟩
  · exact hmiss.bind
  refine hreads₂.bind_misses fun _ _ => ?_
  rcases symbolsLine_cases (fun h => h.located.named) (fun h => h.located.named) cs₃ with
    hmiss | ⟨l₃, cs₄, hlines₃, h₃, hreads₃⟩
  · exact hmiss.bind
  refine hreads₃.bind_misses fun _ _ => ?_
  rcases symbolLine_cases .start cs₄ with hmiss | ⟨l₄, label, cs₅, hlines₄, h₄, hreads₄⟩
  · exact hmiss.bind
  refine hreads₄.bind_misses fun _ _ => ?_
  obtain ⟨l₅, e, rfl, hl, he, hlines₅⟩ := exists_line cs₅
  -- the header is complete, so it is a later line that spells nothing
  have hlater : ∀ all, ¬ List.Forall₂ SpellsLine (laterLines e) all := fun all hall => by
    rw [hlines₁, hlines₂, hlines₃, hlines₄, hlines₅] at h
    exact h _ (.intro h₁ h₂ h₃ h₄ hall)
  obtain ⟨r, hr, hnil, hfinals⟩ := reads_finals hl he
  obtain ⟨all, rest, hne, hrepeats⟩ := repeats_furtherLine_of_not he hlater
  refine (reads_skipSeparators he).bind_misses fun _ _ => hfinals.bind_misses fun _ _ => ?_
  refine (reads_line (.blank hnil) hr he).bind_misses fun _ _ => ?_
  exact hrepeats.many.bind_misses fun _ _ => (misses_endOfText hne).named.bind

end TapeGrammar.Descriptor
