import TapeGrammar.Proofs.Descriptor.Lines
import TapeGrammar.Proofs.Descriptor.Readers

/-!
# Reading along a line

Every reader of a part of a descriptor is followed along a line `l` with what comes behind it, `e`,
which is nothing or begins with a line end.  What it finds is said in terms of the tokens of the
line, and what it leaves is again the end of a line with `e` behind it, so the statements chain.  No
reader passes a line end unless it looks for one: that is why a line can be treated on its own.

At each place there are two cases, given by `bare_or_beginsWith`: the line has no token left, or begins
with one.  Since they exclude each other, a choice that a reader makes is never one that it would
have to take back.
-/

namespace TapeGrammar.Descriptor

open Reader
open SyntaxError (isLineEnd)

variable {l e r w cs rest : List Char} {found : Option (Situation × Move)}

/-! ## 1. Characters -/

theorem isSymbolChar_eq {c : Char} (h : isLineEnd c = false) :
    isSymbolChar c = !isSeparator c := by
  simp [isSymbolChar, h]

theorem isSeparator_of_isLineEnd {c : Char} (h : isLineEnd c = true) : isSeparator c = false := by
  simp only [isLineEnd, Bool.or_eq_true, beq_iff_eq] at h
  rcases h with rfl | rfl <;> decide

/-- The characters are at an end or begin with one that cannot be in a symbol. -/
def AtStop (cs : List Char) : Prop := ∀ c ∈ cs.head?, isSymbolChar c = false

theorem atStop_append (hr : AtSeparator r) (he : AtLineEnd e) : AtStop (r ++ e) := by
  intro c hc
  cases r with
  | nil => simp [isSymbolChar, he c hc]
  | cons a r => simp [isSymbolChar, hr c hc]

/-- A run ends where its characters do. -/
theorem takeWhile_append_stop {p : Char → Bool} (hw : ∀ c ∈ w, p c = true)
    (hstop : ∀ c ∈ cs.head?, p c = false) :
    (w ++ cs).takeWhile p = w ∧ (w ++ cs).dropWhile p = cs := by
  have hnone : cs.takeWhile p = [] ∧ cs.dropWhile p = cs := by
    cases cs with
    | nil => exact ⟨rfl, rfl⟩
    | cons c cs => simp [hstop c rfl]
  rw [List.takeWhile_append_of_pos hw, List.dropWhile_append_of_pos hw, hnone.1, hnone.2]
  exact ⟨List.append_nil w, rfl⟩

/-- A text in which nothing stops a symbol does not go beyond a stop. -/
theorem prefix_of_prefix_append {text : List Char} (htext : ∀ c ∈ text, isSymbolChar c = true)
    (hstop : AtStop cs) (h : text <+: w ++ cs) : text <+: w := by
  rcases List.prefix_or_prefix_of_prefix h (List.prefix_append w cs) with h' | ⟨beyond, rfl⟩
  · exact h'
  · cases beyond with
    | nil => simp
    | cons c beyond =>
      obtain ⟨behind, rfl⟩ := (List.prefix_append_right_inj w).mp h
      have := htext c (by simp)
      simp [hstop c rfl] at this

/-! ## 2. Separators and comments -/

theorem dropWhile_separators (he : AtLineEnd e) :
    (l ++ e).dropWhile isSeparator = unindented l ++ e := by
  induction l with
  | nil =>
    cases e with
    | nil => rfl
    | cons c e => exact List.dropWhile_cons_of_neg (by simp [isSeparator_of_isLineEnd (he c rfl)])
  | cons c l ih =>
    by_cases hc : isSeparator c = true
    · rw [List.cons_append, List.dropWhile_cons_of_pos hc, ih, unindented, unindented,
        List.dropWhile_cons_of_pos hc]
    · rw [List.cons_append, List.dropWhile_cons_of_neg hc, unindented,
        List.dropWhile_cons_of_neg hc, List.cons_append]

theorem reads_skipSeparators (he : AtLineEnd e) :
    Reads skipSeparators (l ++ e) (fun _ => True) (unindented l ++ e) := by
  rw [← dropWhile_separators he]
  exact reads_takeWhile.bind fun _ _ => reads_pure trivial

theorem reads_separator (he : AtLineEnd e) (hr : AtSeparator r) (hne : r ≠ []) :
    Reads separator (r ++ e) (fun _ => True) (unindented r ++ e) := by
  obtain ⟨c, r, rfl⟩ := List.exists_cons_of_ne_nil hne
  have hc : isSeparator c = true := hr c rfl
  rw [← dropWhile_separators he]
  refine reads_takeWhile.bind fun blanks hblanks => ?_
  rw [hblanks, List.cons_append, List.takeWhile_cons_of_pos hc]
  exact reads_pure trivial

theorem misses_separator (he : AtLineEnd e) : Misses separator e := by
  refine reads_takeWhile.bind_misses fun blanks hblanks => ?_
  have hnil : e.takeWhile isSeparator = [] := by
    cases e with
    | nil => rfl
    | cons c e => exact List.takeWhile_cons_of_neg (by simp [isSeparator_of_isLineEnd (he c rfl)])
  rw [hblanks, hnil]
  exact misses_fail

theorem reads_comment (hl : Unbroken l) (he : AtLineEnd e) :
    Reads skipComment ('#' :: l ++ e) (fun _ => True) e := by
  have hbegin : Reads (literal ['#']) ('#' :: l ++ e) (fun _ => True) (l ++ e) := reads_literal
  have hend : (l ++ e).dropWhile (fun c => !isLineEnd c) = e :=
    (takeWhile_append_stop (fun c hc => by simp [hl c hc]) (fun c hc => by simp [he c hc])).2
  refine hbegin.optional.bind fun begun hbegun => ?_
  obtain ⟨_, rfl, -⟩ := hbegun
  refine Reads.bind reads_takeWhile fun _ _ => ?_
  rw [hend]
  exact reads_pure trivial

theorem reads_noComment (h : cs.head? ≠ some '#') :
    Reads skipComment cs (fun _ => True) cs := by
  have hnot : ¬ ['#'] <+: cs := by
    rintro ⟨rest, rfl⟩
    exact h rfl
  exact (misses_literal hnot).optional.bind fun begun hbegun => by
    subst hbegun
    exact reads_pure trivial

/-! ## 3. Symbols -/

theorem reads_symbol (hw : IsWord w) (hl : Unbroken w) (hstop : AtStop cs) :
    Reads symbol (w ++ cs) (· = String.ofList w) cs := by
  have hchars : ∀ c ∈ w, isSymbolChar c = true := fun c hc => by
    rw [isSymbolChar_eq (hl c hc), hw.unseparated c hc]
    rfl
  have hrun := takeWhile_append_stop hchars hstop
  have hnot : ¬ ['#'] <+: w ++ cs := by
    obtain ⟨c, w, rfl⟩ := List.exists_cons_of_ne_nil hw.ne_nil
    rintro ⟨rest, hrest⟩
    have hc := (List.cons.inj hrest).1
    have := hw.beginsComment
    simp [beginsComment, ← hc] at this
  refine Reads.named ?_
  refine (misses_literal hnot).optional.bind fun comment hcomment => ?_
  subst hcomment
  refine Reads.bind reads_takeWhile fun run hrun' => ?_
  rw [hrun.1] at hrun'
  rw [hrun.2, hrun']
  simp only [List.isEmpty_iff, hw.ne_nil, ↓reduceIte]
  exact reads_pure rfl

theorem misses_symbol_of_atStop (hcomment : cs.head? ≠ some '#') (hstop : AtStop cs) :
    Misses symbol cs := by
  have hnot : ¬ ['#'] <+: cs := by
    rintro ⟨rest, rfl⟩
    exact hcomment rfl
  have hrun := takeWhile_append_stop (w := []) (p := isSymbolChar) (by simp) hstop
  refine Misses.named ?_
  refine (misses_literal hnot).optional.bind_misses fun comment hcomment => ?_
  subst hcomment
  refine Reads.bind_misses reads_takeWhile fun run hrun' => ?_
  rw [hrun', show cs.takeWhile isSymbolChar = [] from hrun.1]
  exact misses_fail.bind

theorem misses_symbol_of_comment : Misses symbol ('#' :: cs) := by
  have hbegin : Reads (literal ['#']) ('#' :: cs) (fun _ => True) cs := reads_literal
  refine Misses.named ?_
  refine hbegin.optional.bind_misses fun comment hcomment => ?_
  obtain ⟨_, rfl, -⟩ := hcomment
  exact misses_fail.bind

theorem reads_word (h : BeginsWith l w r) (hl : Unbroken l) (he : AtLineEnd e) :
    Reads symbol (unindented l ++ e) (· = String.ofList w) (r ++ e) := by
  rw [h.split, List.append_assoc]
  exact reads_symbol h.word (h.unbroken hl).1 (atStop_append h.separated he)

theorem misses_word (h : Bare l) (he : AtLineEnd e) : Misses symbol (unindented l ++ e) := by
  rcases h with hnil | ⟨comment, hcomment⟩
  · rw [hnil]
    refine misses_symbol_of_atStop (fun hhead => ?_) (atStop_append (by simp [AtSeparator]) he)
    exact absurd (he '#' hhead) (by decide)
  · rw [hcomment]
    exact misses_symbol_of_comment

/-- A symbol behind separators. -/
def nextSymbol : Reader String := do
  separator
  symbol

theorem reads_nextSymbol (hr : AtSeparator l) (h : BeginsWith l w r) (hl : Unbroken l)
    (he : AtLineEnd e) : Reads nextSymbol (l ++ e) (· = String.ofList w) (r ++ e) := by
  have hne : l ≠ [] := fun hnil => absurd h.length_lt (by simp [hnil])
  exact (reads_separator he hr hne).bind fun _ _ => reads_word h hl he

theorem misses_nextSymbol (hr : AtSeparator l) (h : Bare l) (he : AtLineEnd e) :
    Misses nextSymbol (l ++ e) := by
  by_cases hne : l = []
  · subst hne
    exact (misses_separator he).bind
  · exact (reads_separator he hr hne).bind_misses fun _ _ => misses_word h he

/-- Behind a token, all the tokens that the line has left are read one after the other. -/
theorem repeats_nextSymbol (hr : AtSeparator l) (hl : Unbroken l) (he : AtLineEnd e) :
    ∃ r, Unbroken r ∧ tokens r = [] ∧
      Repeats nextSymbol (fun token value => value = token) (l ++ e) (tokens l) (r ++ e) := by
  induction hlen : l.length using Nat.strongRecOn generalizing l with
  | ind length ih =>
    rcases bare_or_beginsWith l with hbare | ⟨w, r, hbegins⟩
    · rw [tokens_of_bare hbare]
      exact ⟨l, hl, tokens_of_bare hbare, .stop (misses_nextSymbol hr hbare he)⟩
    · have hlt := hbegins.length_lt
      obtain ⟨r', hr', htokens, hrepeats⟩ :=
        ih r.length (hlen ▸ hlt) hbegins.separated (hbegins.unbroken hl).2 rfl
      rw [hbegins.tokens_eq]
      exact ⟨r', hr', htokens, .turn (reads_nextSymbol hr hbegins hl he)
        (by simpa using hlt) hrepeats⟩

/-- **All tokens of a line are read.** -/
theorem reads_symbols (h : tokens l ≠ []) (hl : Unbroken l) (he : AtLineEnd e) :
    ∃ r, Unbroken r ∧ tokens r = [] ∧
      Reads symbols (unindented l ++ e) (· = tokens l) (r ++ e) := by
  rcases bare_or_beginsWith l with hbare | ⟨w, r, hbegins⟩
  · exact absurd (tokens_of_bare hbare) h
  · obtain ⟨r', hr', htokens, hrepeats⟩ :=
      repeats_nextSymbol hbegins.separated (hbegins.unbroken hl).2 he
    refine ⟨r', hr', htokens, Reads.named ?_⟩
    refine (reads_word hbegins hl he).bind fun first hfirst => ?_
    refine hrepeats.many.bind fun others hothers => reads_pure ?_
    have hsame : tokens r = others := List.forall₂_eq_eq_eq ▸ hothers.imp fun _ _ h => h.symm
    rw [hfirst, hbegins.tokens_eq, hsame]

theorem misses_symbols (h : tokens l = []) (he : AtLineEnd e) :
    Misses symbols (unindented l ++ e) :=
  .named (misses_word (tokens_eq_nil_iff.mp h) he).bind

/-! ## 4. The end of a line -/

theorem reads_lineEnd (h : behindLineEnd? cs = some rest) :
    Reads lineEnd cs (fun _ => True) rest := by
  intro offset attempts
  unfold behindLineEnd? at h
  split at h <;> cases h
  · exact ⟨(), offset + 1, attempts, rfl, trivial⟩
  · exact ⟨(), offset + 2, attempts, rfl, trivial⟩
  · rename_i hne
    exact ⟨(), offset + 1, attempts, by rw [lineEnd.eq_def]; split <;> simp_all, trivial⟩

theorem misses_lineEnd (h : behindLineEnd? cs = none) : Misses lineEnd cs := by
  intro offset attempts
  refine ⟨attempts, ?_⟩
  unfold behindLineEnd? at h
  split at h <;> cases h
  rename_i hfeed hboth hreturn
  rw [lineEnd.eq_def]
  split <;> simp_all

/-- Passes over what may stand behind the symbols of a line. -/
def skipRest : Reader Unit := do
  skipSeparators
  skipComment

/-- A bare line is passed over as a whole. -/
theorem reads_skipRest (h : Bare l) (hl : Unbroken l) (he : AtLineEnd e) :
    Reads skipRest (l ++ e) (fun _ => True) e := by
  refine (reads_skipSeparators he).bind fun _ _ => ?_
  rcases h with hnil | ⟨comment, hcomment⟩
  · rw [hnil]
    exact reads_noComment fun hhead => absurd (he '#' hhead) (by decide)
  · have hsuffix : '#' :: comment <:+ l := hcomment ▸ List.dropWhile_suffix _
    rw [hcomment]
    exact reads_comment (fun c hc => hl c (hsuffix.subset (List.mem_cons_of_mem _ hc))) he

/-- Nothing of a token is passed over. -/
theorem reads_skipRest_of_beginsWith (h : BeginsWith l w r) (he : AtLineEnd e) :
    Reads skipRest (l ++ e) (fun _ => True) (unindented l ++ e) := by
  refine (reads_skipSeparators he).bind fun _ _ => reads_noComment fun hhead => ?_
  obtain ⟨c, w', hw⟩ := List.exists_cons_of_ne_nil h.word.ne_nil
  rw [h.split, hw] at hhead
  have := h.word.beginsComment
  simp_all [beginsComment]

/-! ## 5. The lines of the header -/

/-- A line of the header with the given part. -/
def headerLine {α : Type} (part : Reader α) : Reader α := do
  skipSeparators
  let found ← part
  restOfHeaderLine
  return found

section HeaderLine

variable {α : Type} {part : Reader α} {P : α → Prop}

theorem restOfHeaderLine_eq : restOfHeaderLine = (do skipRest; lineEnd) := by
  simp [restOfHeaderLine, skipRest]

theorem reads_headerLine (hpart : Reads part (unindented l ++ e) P (r ++ e)) (htokens : tokens r = [])
    (hr : Unbroken r) (he : AtLineEnd e) (hrest : behindLineEnd? e = some rest) :
    Reads (headerLine part) (l ++ e) P rest := by
  have hend : Reads restOfHeaderLine (r ++ e) (fun _ => True) rest := by
    rw [restOfHeaderLine_eq]
    exact (reads_skipRest (tokens_eq_nil_iff.mp htokens) hr he).bind fun _ _ =>
      reads_lineEnd hrest
  exact (reads_skipSeparators he).bind fun _ _ =>
    hpart.bind fun found hfound => hend.bind fun _ _ => reads_pure hfound

theorem misses_headerLine (hpart : Misses part (unindented l ++ e)) (he : AtLineEnd e) :
    Misses (headerLine part) (l ++ e) :=
  (reads_skipSeparators he).bind_misses fun _ _ => hpart.bind

/-- No line of the header ends with a token that its part has not taken, or with the text. -/
theorem misses_headerLine_of_rest (hpart : Reads part (unindented l ++ e) P (r ++ e))
    (hr : Unbroken r) (he : AtLineEnd e) (h : tokens r ≠ [] ∨ behindLineEnd? e = none) :
    Misses (headerLine part) (l ++ e) := by
  refine (reads_skipSeparators he).bind_misses fun _ _ => hpart.bind_misses fun _ _ => ?_
  rw [restOfHeaderLine_eq]
  refine Misses.bind ?_
  rcases bare_or_beginsWith r with hbare | ⟨w, r', hbegins⟩
  · refine (reads_skipRest hbare hr he).bind_misses fun _ _ => misses_lineEnd ?_
    exact h.resolve_left (not_not.mpr (tokens_of_bare hbare))
  · refine (reads_skipRest_of_beginsWith hbegins he).bind_misses fun _ _ => misses_lineEnd ?_
    refine behindLineEnd?_append (fun c hc => hr c ((List.dropWhile_suffix _).subset hc)) ?_
    rw [hbegins.split]
    exact List.append_ne_nil_of_left_ne_nil hbegins.word.ne_nil _

/-- **A line with one or more tokens** is read if another line follows. -/
theorem reads_symbolsLine {value : α → List String}
    (hpart : ∀ {cs P rest}, Reads symbols cs P rest →
      Reads part cs (fun found => P (value found)) rest)
    (hl : Unbroken l) (he : AtLineEnd e) (htokens : tokens l ≠ [])
    (hrest : behindLineEnd? e = some rest) :
    Reads (headerLine part) (l ++ e) (fun found => value found = tokens l) rest := by
  obtain ⟨r, hr, hnil, hreads⟩ := reads_symbols htokens hl he
  exact reads_headerLine (hpart hreads) hnil hr he hrest

theorem misses_symbolsLine {value : α → List String}
    (hpart : ∀ {cs P rest}, Reads symbols cs P rest →
      Reads part cs (fun found => P (value found)) rest)
    (hpart' : ∀ {cs}, Misses symbols cs → Misses part cs)
    (hl : Unbroken l) (he : AtLineEnd e) (h : tokens l = [] ∨ behindLineEnd? e = none) :
    Misses (headerLine part) (l ++ e) := by
  by_cases htokens : tokens l = []
  · exact misses_headerLine (hpart' (misses_symbols htokens he)) he
  · obtain ⟨r, hr, -, hreads⟩ := reads_symbols htokens hl he
    exact misses_headerLine_of_rest (hpart hreads) hr he (.inr (h.resolve_left htokens))

/-- A first line with one or more tokens is read if it is not the last; any other is missed. -/
theorem symbolsLine_cases {value : α → List String}
    (hpart : ∀ {cs P rest}, Reads symbols cs P rest →
      Reads part cs (fun found => P (value found)) rest)
    (hpart' : ∀ {cs}, Misses symbols cs → Misses part cs) (cs : List Char) :
    Misses (headerLine part) cs ∨ ∃ l rest, lines cs = l :: lines rest ∧ tokens l ≠ [] ∧
      Reads (headerLine part) cs (fun found => value found = tokens l) rest := by
  obtain ⟨l, e, rfl, hl, he, hlines⟩ := exists_line cs
  by_cases h : tokens l = [] ∨ behindLineEnd? e = none
  · exact .inl (misses_symbolsLine hpart hpart' hl he h)
  · obtain ⟨htokens, hmore⟩ := not_or.mp h
    obtain ⟨rest, hrest⟩ := Option.ne_none_iff_exists'.mp hmore
    rw [laterLines_eq hrest] at hlines
    exact .inr ⟨l, rest, hlines, htokens, reads_symbolsLine hpart hl he htokens hrest⟩

/-- **A line with exactly one token** is read if another line follows. -/
theorem reads_symbolLine {label : String} {name : Part} (hl : Unbroken l) (he : AtLineEnd e)
    (htokens : tokens l = [label]) (hrest : behindLineEnd? e = some rest) :
    Reads (headerLine (named name symbol)) (l ++ e) (· = label) rest := by
  obtain ⟨w, r, hbegins, rfl, hnil⟩ := exists_beginsWith htokens
  exact reads_headerLine (reads_word hbegins hl he).named hnil.symm (hbegins.unbroken hl).2 he hrest

theorem misses_symbolLine {name : Part} (hl : Unbroken l) (he : AtLineEnd e)
    (h : (∀ label, tokens l ≠ [label]) ∨ behindLineEnd? e = none) :
    Misses (headerLine (named name symbol)) (l ++ e) := by
  rcases bare_or_beginsWith l with hbare | ⟨w, r, hbegins⟩
  · exact misses_headerLine (misses_word hbare he).named he
  · refine misses_headerLine_of_rest (reads_word hbegins hl he).named (hbegins.unbroken hl).2 he ?_
    refine h.imp_left fun hlabel hnil => hlabel (String.ofList w) ?_
    rw [hbegins.tokens_eq, hnil]

/-- A first line with exactly one token is read if it is not the last; any other is missed. -/
theorem symbolLine_cases (name : Part) (cs : List Char) :
    Misses (headerLine (named name symbol)) cs ∨ ∃ l label rest, lines cs = l :: lines rest ∧
      tokens l = [label] ∧ Reads (headerLine (named name symbol)) cs (· = label) rest := by
  obtain ⟨l, e, rfl, hl, he, hlines⟩ := exists_line cs
  by_cases h : (∀ label, tokens l ≠ [label]) ∨ behindLineEnd? e = none
  · exact .inl (misses_symbolLine hl he h)
  · obtain ⟨hlabel, hmore⟩ := not_or.mp h
    obtain ⟨label, htokens⟩ := not_forall_not.mp hlabel
    obtain ⟨rest, hrest⟩ := Option.ne_none_iff_exists'.mp hmore
    rw [laterLines_eq hrest] at hlines
    exact .inr ⟨l, label, rest, hlines, htokens, reads_symbolLine hl he htokens hrest⟩

end HeaderLine

end TapeGrammar.Descriptor
