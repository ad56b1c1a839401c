import Mathlib.Data.List.Forall2
import Mathlib.Data.List.DropRight
import TapeGrammar.Descriptor.Sections

/-!
# The lines of a descriptor

The format of a descriptor, stated without a reader.  A text is cut into LINES, a line into RUNS of
characters that do not separate, and the TOKENS of a line are its runs up to the first that begins
a comment.  What a descriptor has to be is then said about the tokens of its lines (`Spells`), with
no notion of a place in the text and no choice that could be made in the wrong order.

The one thing that is not a matter of whole tokens is a comment that follows a direction without a
separator: there the direction and the beginning of the comment are one run.
-/

namespace TapeGrammar.Descriptor

open SyntaxError (isLineEnd)

/-! ## 1. Cutting a text into lines -/

/-- The lines of a text.  A line ends at a line feed, at a carriage return, or at both in this
order; what follows the last line end is a line too. -/
def lines : List Char → List (List Char)
  | [] => [[]]
  | '\n' :: cs => [] :: lines cs
  | '\r' :: '\n' :: cs => [] :: lines cs
  | '\r' :: cs => [] :: lines cs
  | c :: cs => (lines cs).modifyHead (c :: ·)

/-- What follows the line end that the characters begin with. -/
def behindLineEnd? : List Char → Option (List Char)
  | '\n' :: cs => some cs
  | '\r' :: '\n' :: cs => some cs
  | '\r' :: cs => some cs
  | _ => none

/-- The lines that follow the line end that the characters begin with: none if there is no line
end. -/
def laterLines (cs : List Char) : List (List Char) :=
  match behindLineEnd? cs with
  | some rest => lines rest
  | none => []

/-- No character ends a line. -/
def Unbroken (l : List Char) : Prop := ∀ c ∈ l, isLineEnd c = false

/-- The characters are at an end or begin with a line end. -/
def AtLineEnd (e : List Char) : Prop := ∀ c ∈ e.head?, isLineEnd c = true

variable {l e cs w r : List Char}

theorem Unbroken.of_suffix (h : Unbroken l) (hsuffix : r <:+ l) : Unbroken r :=
  fun c hc => h c (hsuffix.subset hc)

/-- Characters that do not end a line belong to the first line. -/
theorem lines_append (h : Unbroken l) : lines (l ++ cs) = (lines cs).modifyHead (l ++ ·) := by
  induction l with
  | nil => exact (congrFun List.modifyHead_id (lines cs)).symm
  | cons c l ih =>
    have hc : isLineEnd c = false := h c List.mem_cons_self
    have hne : c ≠ '\n' ∧ c ≠ '\r' := by
      constructor <;> (rintro rfl; exact absurd hc (by decide))
    have hcons : lines (c :: (l ++ cs)) = (lines (l ++ cs)).modifyHead (c :: ·) := by
      rw [lines] <;> simp_all
    rw [List.cons_append, hcons, ih fun x hx => h x (List.mem_cons_of_mem c hx),
      List.modifyHead_modifyHead]
    rfl

/-- A place at which there could be a line end, but is none, is the end of the text. -/
theorem eq_nil_of_behindLineEnd? (he : AtLineEnd e) (h : behindLineEnd? e = none) : e = [] := by
  unfold behindLineEnd? at h
  split at h <;> cases h
  rename_i hfeed hboth hreturn
  cases e with
  | nil => rfl
  | cons c cs =>
    have hc := he c rfl
    simp only [isLineEnd, Bool.or_eq_true, beq_iff_eq] at hc
    rcases hc with rfl | rfl
    · exact (hreturn cs rfl).elim
    · exact (hfeed cs rfl).elim

/-- At a line end the first line is empty. -/
theorem lines_of_atLineEnd (h : AtLineEnd e) : lines e = [] :: laterLines e := by
  by_cases hend : behindLineEnd? e = none
  · obtain rfl := eq_nil_of_behindLineEnd? h hend
    rfl
  · unfold laterLines
    fun_cases behindLineEnd? e with
    | case1 | case2 => rfl
    | case3 cs hne => rw [lines.eq_4 _ hne]
    | case4 e hfeed hboth hreturn => exact absurd (by simp_all [behindLineEnd?]) hend

theorem lines_append_of_atLineEnd (hl : Unbroken l) (he : AtLineEnd e) :
    lines (l ++ e) = l :: laterLines e := by
  rw [lines_append hl, lines_of_atLineEnd he, List.modifyHead_cons, List.append_nil]

/-- **A text is its first line, a line end, and the later lines.** -/
theorem exists_line (cs : List Char) :
    ∃ l e, cs = l ++ e ∧ Unbroken l ∧ AtLineEnd e ∧ lines cs = l :: laterLines e := by
  have hl : Unbroken (cs.takeWhile fun c => !isLineEnd c) := fun c hc => by
    simpa using List.mem_takeWhile_imp hc
  have he : AtLineEnd (cs.dropWhile fun c => !isLineEnd c) := fun c hc => by
    have := List.head?_dropWhile_not (fun c => !isLineEnd c) cs
    rw [show (cs.dropWhile fun c => !isLineEnd c).head? = some c from hc] at this
    simpa using this
  refine ⟨_, _, List.takeWhile_append_dropWhile.symm, hl, he, ?_⟩
  rw [← lines_append_of_atLineEnd hl he, List.takeWhile_append_dropWhile]

theorem laterLines_eq (h : behindLineEnd? e = some cs) : laterLines e = lines cs := by
  rw [laterLines, h]

theorem exists_of_lines {more : List (List Char)} (h : lines cs = l :: more) :
    ∃ e, cs = l ++ e ∧ Unbroken l ∧ AtLineEnd e ∧ more = laterLines e := by
  obtain ⟨l', e, hcs, hl, he, hlines⟩ := exists_line cs
  rw [hlines] at h
  obtain ⟨rfl, rfl⟩ := List.cons.inj h
  exact ⟨e, hcs, hl, he, rfl⟩

/-- A later line stands between two line ends, or between one and the end of the text. -/
theorem exists_of_laterLines {more : List (List Char)} (h : laterLines e = l :: more) :
    ∃ e', behindLineEnd? e = some (l ++ e') ∧ Unbroken l ∧ AtLineEnd e' ∧ more = laterLines e' := by
  unfold laterLines at h
  split at h
  · rename_i cs hcs
    obtain ⟨e', rfl, hrest⟩ := exists_of_lines h
    exact ⟨e', hcs, hrest⟩
  · cases h

/-- Without later lines the text is at its end. -/
theorem eq_nil_of_laterLines (he : AtLineEnd e) (h : laterLines e = []) : e = [] := by
  unfold laterLines at h
  split at h
  · obtain ⟨l, e', -, -, -, hlines⟩ := exists_line ‹_›
    rw [hlines] at h
    cases h
  · exact eq_nil_of_behindLineEnd? he (by assumption)

/-- Before the end of a line there is no line end. -/
theorem behindLineEnd?_append (hl : Unbroken l) (hne : l ≠ []) : behindLineEnd? (l ++ e) = none := by
  obtain ⟨c, l, rfl⟩ := List.exists_cons_of_ne_nil hne
  have hc : isLineEnd c = false := hl c List.mem_cons_self
  have hfeed : c ≠ '\n' := by rintro rfl; exact absurd hc (by decide)
  have hreturn : c ≠ '\r' := by rintro rfl; exact absurd hc (by decide)
  rw [List.cons_append]
  unfold behindLineEnd?
  split <;> simp_all

theorem length_of_behindLineEnd? (h : behindLineEnd? e = some cs) : cs.length < e.length := by
  unfold behindLineEnd? at h
  split at h <;> cases h
  · exact Nat.lt_succ_self _
  · exact Nat.lt_succ_of_lt (Nat.lt_succ_self _)
  · exact Nat.lt_succ_self _

/-! ## 2. Cutting a line into tokens -/

/-- The maximal runs of characters that do not separate. -/
def runs (line : List Char) : List (List Char) :=
  (line.splitOnP isSeparator).filter fun run => !run.isEmpty

/-- Whether a run begins a comment. -/
def beginsComment (run : List Char) : Bool := run.head? == some '#'

/-- The tokens of a line: its runs from the left, up to the first that begins a comment. -/
def tokens (line : List Char) : List String :=
  ((runs line).takeWhile fun run => !beginsComment run).map String.ofList

/-- What stands behind the separators that a line begins with. -/
def unindented (line : List Char) : List Char := line.dropWhile isSeparator

/-- The characters of a token. -/
structure IsWord (w : List Char) : Prop where
  ne_nil : w ≠ []
  unseparated : ∀ c ∈ w, isSeparator c = false
  beginsComment : beginsComment w = false

/-- The characters are at an end or begin with a separator. -/
def AtSeparator (r : List Char) : Prop := ∀ c ∈ r.head?, isSeparator c = true

/-- The first token of a line is `w`, and the line goes on with `r`. -/
structure BeginsWith (l w r : List Char) : Prop where
  split : unindented l = w ++ r
  word : IsWord w
  separated : AtSeparator r

/-- A line is blank up to a comment. -/
def Bare (l : List Char) : Prop := unindented l = [] ∨ ∃ comment, unindented l = '#' :: comment

theorem runs_nil : runs [] = [] := rfl

theorem runs_separator {c : Char} (h : isSeparator c = true) : runs (c :: l) = runs l := by
  rw [runs, List.splitOnP_cons_eq_if_modifyHead, if_pos h]
  rfl

theorem runs_append (hw : ∀ c ∈ w, isSeparator c = false) (hne : w ≠ []) (hr : AtSeparator r) :
    runs (w ++ r) = w :: runs r := by
  cases r with
  | nil => simp [runs, List.splitOnP_eq_singleton hw, hne]
  | cons c r =>
    have hc : isSeparator c = true := hr c rfl
    rw [runs_separator hc, runs, List.splitOnP_append_cons_of_forall_mem hw c hc,
      List.filter_cons_of_pos (by simpa using hne), runs]

theorem runs_unindented (l : List Char) : runs (unindented l) = runs l := by
  induction l with
  | nil => rfl
  | cons c l ih =>
    by_cases hc : isSeparator c = true
    · rw [runs_separator hc, ← ih, unindented, List.dropWhile_cons_of_pos hc, unindented]
    · rw [unindented, List.dropWhile_cons_of_neg hc]

theorem BeginsWith.tokens_eq (h : BeginsWith l w r) :
    tokens l = String.ofList w :: tokens r := by
  rw [tokens, ← runs_unindented, h.split, runs_append h.word.unseparated h.word.ne_nil h.separated,
    List.takeWhile_cons_of_pos (by simp [h.word.beginsComment]), List.map_cons, tokens]

theorem BeginsWith.suffix (h : BeginsWith l w r) : w ++ r <:+ l := by
  rw [← h.split]
  exact List.dropWhile_suffix _

theorem BeginsWith.rest_suffix (h : BeginsWith l w r) : r <:+ l :=
  (List.suffix_append w r).trans h.suffix

theorem BeginsWith.unbroken (h : BeginsWith l w r) (hl : Unbroken l) : Unbroken w ∧ Unbroken r :=
  ⟨fun c hc => hl c (h.suffix.subset (List.mem_append_left r hc)),
    fun c hc => hl c (h.suffix.subset (List.mem_append_right w hc))⟩

theorem BeginsWith.length_lt (h : BeginsWith l w r) : r.length < l.length := by
  have := List.length_pos_of_ne_nil h.word.ne_nil
  have := h.suffix.length_le
  rw [List.length_append] at this
  omega

/-- The characters up to the next separator, and those from there on. -/
theorem exists_run (l : List Char) : ∃ w r, l = w ++ r ∧ (∀ c ∈ w, isSeparator c = false) ∧
    AtSeparator r := by
  refine ⟨l.takeWhile fun c => !isSeparator c, l.dropWhile fun c => !isSeparator c,
    List.takeWhile_append_dropWhile.symm, fun c hc => by simpa using List.mem_takeWhile_imp hc, ?_⟩
  intro c hc
  have := List.head?_dropWhile_not (fun c => !isSeparator c) l
  rw [show (l.dropWhile fun c => !isSeparator c).head? = some c from hc] at this
  simpa using this

/-- What a bare line has left begins a comment, or is nothing. -/
theorem tokens_of_bare (h : Bare l) : tokens l = [] := by
  rcases h with hnil | ⟨comment, hcomment⟩
  · rw [tokens, ← runs_unindented, hnil, runs_nil]
    rfl
  · obtain ⟨w, r, hsplit, hw, hr⟩ := exists_run comment
    have hrun : runs l = ('#' :: w) :: runs r := by
      rw [← runs_unindented, hcomment, hsplit, ← List.cons_append]
      refine runs_append (fun c hc => ?_) (List.cons_ne_nil _ _) hr
      rcases List.mem_cons.mp hc with rfl | hc
      · decide
      · exact hw c hc
    rw [tokens, hrun, List.takeWhile_cons_of_neg (by simp [beginsComment])]
    rfl

/-- **A line is bare or begins with a token.** -/
theorem bare_or_beginsWith (l : List Char) : Bare l ∨ ∃ w r, BeginsWith l w r := by
  obtain ⟨w, r, hl, hw, hr⟩ := exists_run (unindented l)
  cases w with
  | nil =>
    -- nothing is left, since a separator would have been dropped
    refine .inl (.inl ?_)
    have hhead := List.head?_dropWhile_not isSeparator l
    rw [show l.dropWhile isSeparator = r from hl] at hhead
    rw [hl, List.nil_append]
    cases r with
    | nil => rfl
    | cons c r => simp [hr c rfl] at hhead
  | cons c w =>
    by_cases hc : c = '#'
    · exact .inl (.inr ⟨w ++ r, by rw [hl, hc, List.cons_append]⟩)
    · exact .inr ⟨c :: w, r, hl, ⟨List.cons_ne_nil _ _, hw, by simpa [beginsComment] using hc⟩, hr⟩

/-- **A line has no token exactly if it is bare.** -/
theorem tokens_eq_nil_iff : tokens l = [] ↔ Bare l := by
  refine ⟨fun h => ?_, tokens_of_bare⟩
  rcases bare_or_beginsWith l with hbare | ⟨w, r, hbegins⟩
  · exact hbare
  · rw [hbegins.tokens_eq] at h
    cases h

/-- The first token of a line and the tokens behind it. -/
theorem exists_beginsWith {token : String} {more : List String} (h : tokens l = token :: more) :
    ∃ w r, BeginsWith l w r ∧ token = String.ofList w ∧ more = tokens r := by
  rcases bare_or_beginsWith l with hbare | ⟨w, r, hbegins⟩
  · rw [tokens_of_bare hbare] at h
    cases h
  · rw [hbegins.tokens_eq] at h
    obtain ⟨rfl, rfl⟩ := List.cons.inj h
    exact ⟨w, r, hbegins, rfl, rfl⟩

theorem unindented_unindented (l : List Char) : unindented (unindented l) = unindented l :=
  List.dropWhile_idempotent _ _

theorem bare_unindented_iff : Bare (unindented l) ↔ Bare l := by
  rw [Bare, unindented_unindented, Bare]

theorem Unbroken.unindented (h : Unbroken l) : Unbroken (unindented l) :=
  h.of_suffix (List.dropWhile_suffix _)

/-! ## 3. The format -/

/-- What the lines of a descriptor say, in the order and as often as it is written. -/
structure Layout where
  alphabet : List String
  tapeAlphabet : List String
  boundary : List String
  start : String
  finals : List String
  entries : List (Situation × Move)
  deriving DecidableEq

/-- The tokens of a line that defines a move: four labels and a direction, behind which there is
nothing or a comment.  The comment may follow the direction without a separator; the runs that it
is made of are of no account then. -/
inductive SpellsEntry : List String → Situation × Move → Prop
  | separate (state read next write : String) (direction : Direction) :
    SpellsEntry [state, read, next, write, direction.text]
      (⟨state, read⟩, ⟨next, write, direction⟩)
  | glued (state read next write : String) (direction : Direction) (comment : String)
      (more : List String) :
    SpellsEntry (state :: read :: next :: write :: (direction.text ++ "#" ++ comment) :: more)
      (⟨state, read⟩, ⟨next, write, direction⟩)

/-- A line behind the header has no token or defines a move. -/
inductive SpellsLine (line : List Char) : Option (Situation × Move) → Prop
  | blank : tokens line = [] → SpellsLine line none
  | entry {entry : Situation × Move} : SpellsEntry (tokens line) entry →
    SpellsLine line (some entry)

/-- What lines have to be to be those of a descriptor, and what they say then. -/
inductive Spells : List (List Char) → Layout → Prop
  | intro {alphabet tapeAlphabet boundary start finals : List Char} {label : String}
      {later : List (List Char)} {found : List (Option (Situation × Move))} :
    tokens alphabet ≠ [] → tokens tapeAlphabet ≠ [] → tokens boundary ≠ [] →
    tokens start = [label] → List.Forall₂ SpellsLine later found →
    Spells (alphabet :: tapeAlphabet :: boundary :: start :: finals :: later)
      { alphabet := tokens alphabet
        tapeAlphabet := tokens tapeAlphabet
        boundary := tokens boundary
        start := label
        finals := tokens finals
        entries := found.filterMap id }

end TapeGrammar.Descriptor
