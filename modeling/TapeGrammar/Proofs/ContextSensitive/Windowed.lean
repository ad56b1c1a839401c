import TapeGrammar.Proofs.ContextSensitive.Encoding

/-!
# Moves of a bounded automaton in its grammar

A move changes the composites between the old anchor and the new one, which are one or two, and no
other: it replaces a WINDOW of the form.  The six shapes of transition productions are the six kinds
of windows, so the production of the window is a transition production (`windowed_mem`), and a
transition production applies to an encoding only where it makes a move (`window_of_occurs`).
-/

namespace TapeGrammar.ContextSensitive

variable {a : Automaton} {left right : String} {v : Vocabulary} {word : Word} {c : Configuration}
  {move : Move} {p : Production} {i : Int}

/-! ## 1. Windows -/

/-- The position of the first composite that a move changes. -/
def windowStart (a : Automaton) (word : Word) (c : Configuration) (move : Move) : Int :=
  min (anchor word c) (anchor word (c.apply a move))

/-- The position behind the last composite that a move changes. -/
def windowEnd (a : Automaton) (word : Word) (c : Configuration) (move : Move) : Int :=
  max (anchor word c) (anchor word (c.apply a move)) + 1

/-- The production that makes a move: the composites between the two anchors are replaced. -/
def windowed (a : Automaton) (v : Vocabulary) (word : Word) (c : Configuration) (move : Move) :
    Production where
  left := row (symbolAt a v word c) (windowStart a word c move)
    (windowEnd a word c move - windowStart a word c move).toNat
  right := row (symbolAt a v word (c.apply a move)) (windowStart a word c move)
    (windowEnd a word c move - windowStart a word c move).toNat

/-- Where the anchor moves right, the window has two composites. -/
theorem windowed_of_anchor_succ (h : anchor word (c.apply a move) = anchor word c + 1) :
    windowed a v word c move =
      ⟨[symbolAt a v word c (anchor word c), symbolAt a v word c (anchor word c + 1)],
        [symbolAt a v word (c.apply a move) (anchor word c),
          symbolAt a v word (c.apply a move) (anchor word (c.apply a move))]⟩ := by
  have hstart : windowStart a word c move = anchor word c := by
    unfold windowStart
    omega
  have hwidth : (windowEnd a word c move - windowStart a word c move).toNat = 2 := by
    unfold windowEnd windowStart
    omega
  rw [windowed, hwidth, hstart, h]
  rfl

/-- Where the anchor moves left, the window has two composites. -/
theorem windowed_of_anchor_pred (h : anchor word (c.apply a move) = anchor word c - 1) :
    windowed a v word c move =
      ⟨[symbolAt a v word c (anchor word c - 1), symbolAt a v word c (anchor word c)],
        [symbolAt a v word (c.apply a move) (anchor word (c.apply a move)),
          symbolAt a v word (c.apply a move) (anchor word c)]⟩ := by
  have hstart : windowStart a word c move = anchor word c - 1 := by
    unfold windowStart
    omega
  have hwidth : (windowEnd a word c move - windowStart a word c move).toNat = 2 := by
    unfold windowEnd windowStart
    omega
  rw [windowed, hwidth, hstart, h]
  simp only [row, Int.sub_add_cancel]

section Shapes

variable (hne : word ≠ []) (h : Fenced a v word c) (h' : Fenced a v word (c.apply a move))

include hne h h'

/-- Where the anchor stays, the window is the composite at the anchor. -/
theorem windowed_of_anchor_eq (hanchor : anchor word (c.apply a move) = anchor word c) :
    windowed a v word c move =
      ⟨[carrying v (headPlace word c) c.state (c.symbol a (anchor word c))
          (letterAt word (anchor word c))],
        [carrying v (headPlace word (c.apply a move)) move.next
          ((c.apply a move).symbol a (anchor word c)) (letterAt word (anchor word c))]⟩ := by
  have hstart : windowStart a word c move = anchor word c := by
    unfold windowStart
    omega
  have hwidth : (windowEnd a word c move - windowStart a word c move).toNat = 1 := by
    unfold windowEnd windowStart
    omega
  have hright := symbolAt_anchor hne h'
  rw [hanchor, Configuration.state_apply] at hright
  rw [windowed, hwidth, hstart, row, row, row, row, symbolAt_anchor hne h, hright]

/-- The head leaves the left marker. -/
theorem windowed_leaveLeft {trail : Bool} (hplace : .onLeft trail = headPlace word c)
    (hdir : move.direction = .right) : windowed a v word c move =
      ⟨[carrying v (.onLeft trail) c.state (c.symbol a (anchor word c))
          (letterAt word (anchor word c))],
        [carrying v (.onCell true trail) move.next (c.symbol a (anchor word c))
          (letterAt word (anchor word c))]⟩ := by
  have hlength : 0 < word.length := List.length_pos_iff.mpr hne
  obtain ⟨hhead, rfl⟩ := head_of_onLeft hplace
  have hhead' : (c.apply a move).head = 1 := by rw [Configuration.head_apply_right hdir, hhead]; rfl
  have hanchor : anchor word (c.apply a move) = anchor word c := by unfold anchor; omega
  have hplace' : headPlace word (c.apply a move) =
      .onCell true (decide ((1 : Int) = word.length)) := by
    rw [headPlace_onCell (by omega) (by omega), hhead']
    rfl
  have hsymbol : (c.apply a move).symbol a (anchor word c) = c.symbol a (anchor word c) :=
    Configuration.symbol_apply_of_ne (by unfold anchor; omega)
  rw [windowed_of_anchor_eq hne h h' hanchor, ← hplace, hplace', hsymbol]

/-- The head leaves the right marker. -/
theorem windowed_leaveRight {lead : Bool} (hplace : .onRight lead = headPlace word c)
    (hdir : move.direction = .left) : windowed a v word c move =
      ⟨[carrying v (.onRight lead) c.state (c.symbol a (anchor word c))
          (letterAt word (anchor word c))],
        [carrying v (.onCell lead true) move.next (c.symbol a (anchor word c))
          (letterAt word (anchor word c))]⟩ := by
  have hlength : 0 < word.length := List.length_pos_iff.mpr hne
  obtain ⟨hhead, rfl⟩ := head_of_onRight hplace
  have hhead' : (c.apply a move).head = word.length := by
    rw [Configuration.head_apply_left hdir, hhead]
    omega
  have hanchor : anchor word (c.apply a move) = anchor word c := by unfold anchor; omega
  have hplace' : headPlace word (c.apply a move) =
      .onCell (decide ((word.length : Int) = 1)) true := by
    rw [headPlace_onCell (by omega) (by omega), hhead', decide_eq_true rfl]
  have hsymbol : (c.apply a move).symbol a (anchor word c) = c.symbol a (anchor word c) :=
    Configuration.symbol_apply_of_ne (by unfold anchor; omega)
  rw [windowed_of_anchor_eq hne h h' hanchor, ← hplace, hplace', hsymbol]

/-- The head goes from the last cell onto the right marker. -/
theorem windowed_ontoRight {lead : Bool} (hplace : .onCell lead true = headPlace word c)
    (hdir : move.direction = .right) : windowed a v word c move =
      ⟨[carrying v (.onCell lead true) c.state (c.symbol a (anchor word c))
          (letterAt word (anchor word c))],
        [carrying v (.onRight lead) move.next move.write (letterAt word (anchor word c))]⟩ := by
  obtain ⟨hpos, hle, hlead, htrail⟩ := head_of_onCell h hplace
  have hlast : c.head = word.length := of_decide_eq_true htrail.symm
  have hhead' : (c.apply a move).head = word.length + 1 := by
    rw [Configuration.head_apply_right hdir, hlast]
  have hhere : anchor word c = c.head := anchor_of_cell hpos hle
  have hanchor : anchor word (c.apply a move) = anchor word c := by unfold anchor; omega
  have hplace' : headPlace word (c.apply a move) = .onRight lead := by
    rw [headPlace_onRight hhead', hlead, hlast]
  have hsymbol : (c.apply a move).symbol a (anchor word c) = move.write := by
    rw [hhere, Configuration.symbol_apply_head]
  rw [windowed_of_anchor_eq hne h h' hanchor, ← hplace, hplace', hsymbol]

/-- The head goes from the first cell onto the left marker. -/
theorem windowed_ontoLeft {trail : Bool} (hplace : .onCell true trail = headPlace word c)
    (hdir : move.direction = .left) : windowed a v word c move =
      ⟨[carrying v (.onCell true trail) c.state (c.symbol a (anchor word c))
          (letterAt word (anchor word c))],
        [carrying v (.onLeft trail) move.next move.write (letterAt word (anchor word c))]⟩ := by
  obtain ⟨hpos, hle, hlead, htrail⟩ := head_of_onCell h hplace
  have hfirst : c.head = 1 := of_decide_eq_true hlead.symm
  have hhead' : (c.apply a move).head = 0 := by
    rw [Configuration.head_apply_left hdir, hfirst]
    rfl
  have hhere : anchor word c = c.head := anchor_of_cell hpos hle
  have hanchor : anchor word (c.apply a move) = anchor word c := by unfold anchor; omega
  have hplace' : headPlace word (c.apply a move) = .onLeft trail := by
    rw [headPlace_onLeft hhead', htrail, hfirst]
  have hsymbol : (c.apply a move).symbol a (anchor word c) = move.write := by
    rw [hhere, Configuration.symbol_apply_head]
  rw [windowed_of_anchor_eq hne h h' hanchor, ← hplace, hplace', hsymbol]

/-- The head goes from a cell to the next one. -/
theorem windowed_stepRight {lead : Bool} (hplace : .onCell lead false = headPlace word c)
    (hdir : move.direction = .right) : windowed a v word c move =
      ⟨[carrying v (.onCell lead false) c.state (c.symbol a (anchor word c))
          (letterAt word (anchor word c)),
        plain v false (decide (anchor word c + 1 = word.length)) (c.symbol a (anchor word c + 1))
          (letterAt word (anchor word c + 1))],
        [plain v lead false move.write (letterAt word (anchor word c)),
        carrying v (.onCell false (decide (anchor word c + 1 = word.length))) move.next
          (c.symbol a (anchor word c + 1)) (letterAt word (anchor word c + 1))]⟩ := by
  obtain ⟨hpos, hle, hlead, htrail⟩ := head_of_onCell h hplace
  have hlast : c.head ≠ word.length := of_decide_eq_false htrail.symm
  have hhead' : (c.apply a move).head = c.head + 1 := Configuration.head_apply_right hdir
  have hhere : anchor word c = c.head := anchor_of_cell hpos hle
  have hthere : anchor word (c.apply a move) = c.head + 1 := by unfold anchor; omega
  have hplace' : headPlace word (c.apply a move) =
      .onCell false (decide (c.head + 1 = word.length)) := by
    rw [headPlace_onCell (by omega) (by omega), hhead', decide_eq_false (by omega)]
  have hnext : symbolAt a v word c (c.head + 1) =
      plain v false (decide (c.head + 1 = word.length)) (c.symbol a (c.head + 1))
        (letterAt word (c.head + 1)) := by
    rw [symbolAt_of_ne (by omega) (by omega) (by omega), decide_eq_false (by omega)]
  have hleft : symbolAt a v word (c.apply a move) c.head =
      plain v lead false move.write (letterAt word c.head) := by
    rw [symbolAt_of_ne (by omega) (by omega) (by omega), Configuration.symbol_apply_head, ← hlead,
      ← htrail]
  have hsymbol : (c.apply a move).symbol a (c.head + 1) = c.symbol a (c.head + 1) :=
    Configuration.symbol_apply_of_ne (by omega)
  have hcarrying := symbolAt_anchor hne h
  rw [← hplace, hhere] at hcarrying
  rw [windowed_of_anchor_succ (hthere.trans (congrArg (· + 1) hhere.symm)), symbolAt_anchor hne h',
    hhere, hthere, hcarrying, hplace', hnext, hleft, hsymbol, Configuration.state_apply]

/-- The head goes from a cell to the one before. -/
theorem windowed_stepLeft {trail : Bool} (hplace : .onCell false trail = headPlace word c)
    (hdir : move.direction = .left) : windowed a v word c move =
      ⟨[plain v (decide (anchor word c - 1 = 1)) false (c.symbol a (anchor word c - 1))
          (letterAt word (anchor word c - 1)),
        carrying v (.onCell false trail) c.state (c.symbol a (anchor word c))
          (letterAt word (anchor word c))],
        [carrying v (.onCell (decide (anchor word c - 1 = 1)) false) move.next
          (c.symbol a (anchor word c - 1)) (letterAt word (anchor word c - 1)),
        plain v false trail move.write (letterAt word (anchor word c))]⟩ := by
  obtain ⟨hpos, hle, hlead, htrail⟩ := head_of_onCell h hplace
  have hfirst : c.head ≠ 1 := of_decide_eq_false hlead.symm
  have hhead' : (c.apply a move).head = c.head - 1 := Configuration.head_apply_left hdir
  have hhere : anchor word c = c.head := anchor_of_cell hpos hle
  have hthere : anchor word (c.apply a move) = c.head - 1 := by unfold anchor; omega
  have hplace' : headPlace word (c.apply a move) =
      .onCell (decide (c.head - 1 = 1)) false := by
    rw [headPlace_onCell (by omega) (by omega), hhead',
      decide_eq_false (by omega : ¬ c.head - 1 = word.length)]
  have hprevious : symbolAt a v word c (c.head - 1) =
      plain v (decide (c.head - 1 = 1)) false (c.symbol a (c.head - 1))
        (letterAt word (c.head - 1)) := by
    rw [symbolAt_of_ne (by omega) (by omega) (by omega),
      decide_eq_false (by omega : ¬ c.head - 1 = word.length)]
  have hright : symbolAt a v word (c.apply a move) c.head =
      plain v false trail move.write (letterAt word c.head) := by
    rw [symbolAt_of_ne (by omega) (by omega) (by omega), Configuration.symbol_apply_head, ← hlead,
      ← htrail]
  have hsymbol : (c.apply a move).symbol a (c.head - 1) = c.symbol a (c.head - 1) :=
    Configuration.symbol_apply_of_ne (by omega)
  have hcarrying := symbolAt_anchor hne h
  rw [← hplace, hhere] at hcarrying
  rw [windowed_of_anchor_pred (hthere.trans (congrArg (· - 1) hhere.symm)), symbolAt_anchor hne h',
    hhere, hthere, hcarrying, hplace', hprevious, hright, hsymbol, Configuration.state_apply]

end Shapes

/-- **The production of a window is a transition production.** -/
theorem windowed_mem (ha : a.WellFormed) (hm : a.boundary = .markers left right)
    (hword : a.Takes word) (h : Fenced a (.ofAutomaton a left right) word c)
    (hmove : c.pending? a = some move) :
    windowed a (.ofAutomaton a left right) word c move ∈
      transition a.entries (.ofAutomaton a left right) := by
  have h' := h.apply ha hm hmove
  have hlength : 0 < word.length := List.length_pos_iff.mpr hword.1
  obtain ⟨hlow, hhigh⟩ := anchor_bounds hword.1 c
  have hcell := h.symbol_mem _ hlow hhigh
  have hinputs : ∀ letter ∈ word, letter ∈ (Vocabulary.ofAutomaton a left right).inputs := hword.2
  have hcases := h.move_cases ha hm hmove
  rw [h.pending?_eq] at hmove
  refine (mem_transition_iff ha hm).mpr
    ⟨c.state, _, move, _, letterAt_mem hinputs hlow hhigh, hmove, ?_⟩
  rcases hcases with ⟨hhead, hdir, -⟩ | ⟨hhead, hdir, -⟩ | ⟨hpos, hle, hread, -⟩
  · rw [windowed_leaveLeft hword.1 h h' (headPlace_onLeft hhead).symm hdir]
    have hread : c.symbol a c.head = left := by
      rw [hhead]
      exact h.symbol_left
    exact .leaveLeft _ _ hread hdir hcell
  · rw [windowed_leaveRight hword.1 h h' (headPlace_onRight hhead).symm hdir]
    have hread : c.symbol a c.head = right := by
      rw [hhead]
      exact h.symbol_right
    exact .leaveRight _ _ hread hdir hcell
  · have hhere : anchor word c = c.head := anchor_of_cell hpos hle
    have hplace := (headPlace_onCell hpos hle).symm
    cases hdir : move.direction with
    | right =>
      cases htrail : decide (c.head = word.length) with
      | true =>
        rw [htrail] at hplace
        rw [windowed_ontoRight hword.1 h h' hplace hdir, hhere]
        exact .ontoRight _ hread hdir
      | false =>
        have hlast := of_decide_eq_false htrail
        rw [htrail] at hplace
        rw [windowed_stepRight hword.1 h h' hplace hdir, hhere]
        exact .stepRight _ _ _ _ hread hdir (h.symbol_mem _ (by omega) (by omega))
          (letterAt_mem hinputs (by omega) (by omega))
    | left =>
      cases hlead : decide (c.head = 1) with
      | true =>
        rw [hlead] at hplace
        rw [windowed_ontoLeft hword.1 h h' hplace hdir, hhere]
        exact .ontoLeft _ hread hdir
      | false =>
        have hfirst := of_decide_eq_false hlead
        rw [hlead] at hplace
        rw [windowed_stepLeft hword.1 h h' hplace hdir, hhere]
        exact .stepLeft _ _ _ _ hread hdir (h.symbol_mem _ (by omega) (by omega))
          (letterAt_mem hinputs (by omega) (by omega))

/-! ## 2. Moves -/

/-- The composites before the window of a move. -/
def beforeWindow (a : Automaton) (v : Vocabulary) (word : Word) (c : Configuration) (move : Move) :
    Form :=
  row (symbolAt a v word c) 1 (windowStart a word c move - 1).toNat

/-- The composites behind the window of a move. -/
def behindWindow (a : Automaton) (v : Vocabulary) (word : Word) (m : Nat) (c : Configuration)
    (move : Move) : Form :=
  row (symbolAt a v word c) (windowEnd a word c move) (m + 1 - windowEnd a word c move).toNat

theorem window_bounds (a : Automaton) (hne : word ≠ []) (c : Configuration) (move : Move) :
    1 ≤ windowStart a word c move ∧ windowStart a word c move ≤ windowEnd a word c move := by
  have h := anchor_bounds hne c
  have h' := anchor_bounds hne (c.apply a move)
  unfold windowStart windowEnd
  omega

/-- In a complete encoding there is room for every window. -/
theorem windowEnd_le (a : Automaton) (hne : word ≠ []) (c : Configuration) (move : Move) :
    windowEnd a word c move ≤ word.length + 1 := by
  have h := anchor_bounds hne c
  have h' := anchor_bounds hne (c.apply a move)
  unfold windowEnd
  omega

/-- The encoding before a move, around its window. -/
theorem encode_eq_around {m : Nat} (hne : word ≠ [])
    (hroom : windowEnd a word c move ≤ m + 1) :
    encode a v word m c = beforeWindow a v word c move ++ (windowed a v word c move).left ++
      behindWindow a v word m c move :=
  encode_eq_append (window_bounds a hne c move).1 (window_bounds a hne c move).2 hroom

/-- Outside the window a move changes nothing. -/
theorem symbolAt_apply (hi : 1 ≤ i) (hi' : i ≤ word.length)
    (h : i < windowStart a word c move ∨ windowEnd a word c move ≤ i) :
    symbolAt a v word (c.apply a move) i = symbolAt a v word c i := by
  unfold windowStart windowEnd at h
  have hhead : i ≠ c.head := by
    unfold anchor at h
    omega
  rw [symbolAt_of_ne hi hi' (by omega), symbolAt_of_ne hi hi' (by omega),
    Configuration.symbol_apply_of_ne hhead]

/-- The encoding after a move, around its window. -/
theorem encode_apply_eq_around {m : Nat} (hne : word ≠ []) (hm : m ≤ word.length)
    (hroom : windowEnd a word c move ≤ m + 1) :
    encode a v word m (c.apply a move) =
      beforeWindow a v word c move ++ (windowed a v word c move).right ++
        behindWindow a v word m c move := by
  obtain ⟨hstart, hend⟩ := window_bounds a hne c move
  have hbefore : row (symbolAt a v word (c.apply a move)) 1 (windowStart a word c move - 1).toNat =
      beforeWindow a v word c move :=
    row_congr fun i hi hi' => symbolAt_apply hi (by omega) (Or.inl (by omega))
  have hbehind : row (symbolAt a v word (c.apply a move)) (windowEnd a word c move)
      (m + 1 - windowEnd a word c move).toNat = behindWindow a v word m c move :=
    row_congr fun i hi hi' => symbolAt_apply (by omega) (by omega) (Or.inr hi)
  rw [encode_eq_append hstart hend hroom, hbefore, hbehind]
  rfl

/-! ## 3. Occurrences -/

section Occurrences

variable (hv : Clear a v) (hletters : ∀ letter ∈ word, letter ∈ v.inputs) (hne : word ≠ [])
  (h : Fenced a v word c) {m : Nat} (hm : m ≤ word.length) (hroom : anchor word c ≤ m)

include hv hletters h

/-- Away from the anchor no composite carries a state. -/
theorem not_carries_symbolAt (hi : 1 ≤ i) (hi' : i ≤ word.length) (hne : i ≠ anchor word c) :
    ¬ Carries a (symbolAt a v word c i) := by
  rw [symbolAt_of_ne hi hi' hne]
  exact hv.not_carries_plain (h.symbol_mem i hi hi')
    (hv.input_mem_cells _ (letterAt_mem hletters hi hi')) _ _

include hne hm hroom

/-- **The only composite with a state is the one at the anchor**, whatever follows the encoding. -/
theorem state_of_occurs {tail before behind : Form} (htail : ∀ s ∈ tail, ¬ Carries a s)
    {place : Place} {q x letter : String} (hq : a.isState q = true) (hx : x ∈ v.cells)
    (hform : encode a v word m c ++ tail = before ++ carrying v place q x letter :: behind) :
    (place = headPlace word c ∧ q = c.state ∧ x = c.symbol a (anchor word c) ∧
      letter = letterAt word (anchor word c)) ∧
    before = row (symbolAt a v word c) 1 (anchor word c - 1).toNat ∧
    behind = row (symbolAt a v word c) (anchor word c + 1)
      (m + 1 - (anchor word c + 1)).toNat ++ tail := by
  obtain ⟨hlow, hhigh⟩ := anchor_bounds hne c
  rw [encode_eq_around_anchor hne h hroom, List.append_assoc, List.cons_append] at hform
  obtain ⟨hbefore, hcomposite, hbehind⟩ := split_unique (p := Carries a) (carries_carrying hq)
    (by
      intro s hs
      obtain ⟨i, hi, hi', rfl⟩ := mem_row hs
      exact not_carries_symbolAt hv hletters h hi (by omega) (by omega))
    (by
      intro s hs
      rcases List.mem_append.mp hs with hs | hs
      · obtain ⟨i, hi, hi', rfl⟩ := mem_row hs
        exact not_carries_symbolAt hv hletters h (by omega) (by omega) (by omega)
      · exact htail s hs)
    hform.symm
  exact ⟨hv.carrying_inj hq hx (h.symbol_mem _ hlow hhigh)
    (hv.input_mem_cells _ (letterAt_mem hletters hlow hhigh)) hcomposite, hbefore, hbehind⟩

/-- A window lies where its composite with the state does. -/
theorem around_of_windowed {tail before behind : Form} (htail : ∀ s ∈ tail, ¬ Carries a s)
    (hend : windowEnd a word c move ≤ m + 1)
    (hform : encode a v word m c ++ tail =
      before ++ (windowed a v word c move).left ++ behind) :
    before = beforeWindow a v word c move ∧ behind = behindWindow a v word m c move ++ tail := by
  obtain ⟨hlow, hhigh⟩ := anchor_bounds hne c
  have hin : windowStart a word c move ≤ anchor word c ∧ anchor word c < windowEnd a word c move := by
    unfold windowStart windowEnd
    omega
  have hstart : 1 ≤ windowStart a word c move := (window_bounds a hne c move).1
  have hwindow : (windowed a v word c move).left =
      row (symbolAt a v word c) (windowStart a word c move)
        (anchor word c - windowStart a word c move).toNat ++
      symbolAt a v word c (anchor word c) ::
        row (symbolAt a v word c) (anchor word c + 1)
          (windowEnd a word c move - (anchor word c + 1)).toNat := by
    rw [← row_toNat_cons hin.2, row_append hin.1 (Int.le_of_lt hin.2), windowed]
  rw [hwindow, symbolAt_anchor hne h, List.append_assoc, List.append_assoc, ← List.append_assoc,
    List.cons_append] at hform
  obtain ⟨-, hbefore, hbehind⟩ := state_of_occurs hv hletters hne h hm hroom htail h.isState
    (h.symbol_mem _ hlow hhigh) hform
  constructor
  · rw [← row_append hstart hin.1] at hbefore
    exact List.append_cancel_right hbefore
  · rw [← row_append hin.2 hend, List.append_assoc] at hbehind
    exact List.append_cancel_left hbehind

omit hletters hne hm hroom in
/-- A composite without a state that occurs in the row is the one at its position. -/
theorem eq_of_plain {lead trail : Bool} {z b : String} (hz : z ∈ v.cells) (hi : 1 ≤ i)
    (hi' : i ≤ word.length) (hne : i ≠ anchor word c)
    (hplain : plain v lead trail z b = symbolAt a v word c i) :
    lead = decide (i = 1) ∧ trail = decide (i = word.length) ∧ z = c.symbol a i ∧
      b = letterAt word i := by
  rw [symbolAt_of_ne hi hi' hne] at hplain
  exact hv.plain_inj hz (h.symbol_mem i hi hi') hplain

omit hletters in
/-- A composite without a state behind the one at the anchor is the next one. -/
theorem next_of_occurs {tail behind : Form} (htail : ∀ s ∈ tail, IsHelper s) {lead trail : Bool}
    {z b : String} (hz : z ∈ v.cells)
    (hbehind : plain v lead trail z b :: behind = row (symbolAt a v word c) (anchor word c + 1)
      (m + 1 - (anchor word c + 1)).toNat ++ tail) :
    anchor word c + 1 ≤ m ∧ trail = decide (anchor word c + 1 = word.length) ∧
      z = c.symbol a (anchor word c + 1) ∧ b = letterAt word (anchor word c + 1) := by
  have hlow := (anchor_bounds hne c).1
  rcases Int.lt_or_le (anchor word c + 1) (m + 1) with hlt | hge
  · rw [row_toNat_cons hlt, List.cons_append] at hbehind
    obtain ⟨-, htrail, hz, hb⟩ := eq_of_plain hv h hz (by omega) (by omega) (by omega)
      (List.cons.inj hbehind).1
    exact ⟨by omega, htrail, hz, hb⟩
  · have hzero : ((m : Int) + 1 - (anchor word c + 1)).toNat = 0 := by omega
    rw [hzero, row, List.nil_append] at hbehind
    exact absurd (htail _ (by rw [← hbehind]; exact List.mem_cons_self)) (not_isHelper_plain _ _)

omit hletters hm hroom in
/-- A composite without a state before the one at the anchor is the previous one. -/
theorem previous_of_occurs {before : Form} {lead trail : Bool} {z b : String} (hz : z ∈ v.cells)
    (hbefore : before ++ [plain v lead trail z b] =
      row (symbolAt a v word c) 1 (anchor word c - 1).toNat) :
    lead = decide (anchor word c - 1 = 1) ∧ z = c.symbol a (anchor word c - 1) ∧
      b = letterAt word (anchor word c - 1) := by
  have hhigh := (anchor_bounds hne c).2
  rcases Int.lt_or_le 1 (anchor word c) with hlt | hge
  · rw [row_toNat_concat hlt] at hbefore
    obtain ⟨-, hplain⟩ := List.append_inj' hbefore rfl
    obtain ⟨hlead, -, hz, hb⟩ := eq_of_plain hv h hz (by omega) (by omega) (by omega)
      (List.head_eq_of_cons_eq hplain)
    exact ⟨hlead, hz, hb⟩
  · have hzero : (anchor word c - 1).toNat = 0 := by omega
    rw [hzero, row] at hbefore
    simp at hbefore

end Occurrences

/-- **A transition production applies to an encoding only where it makes a move.**  Behind the
encoding there may be helpers. -/
theorem window_of_occurs (ha : a.WellFormed) (hm : a.boundary = .markers left right)
    (hword : a.Takes word) (h : Fenced a (.ofAutomaton a left right) word c) {m : Nat}
    (hle : m ≤ word.length) (hroom : anchor word c ≤ m) {tail before behind : Form}
    (htail : ∀ s ∈ tail, IsHelper s) (hp : p ∈ transition a.entries (.ofAutomaton a left right))
    (hform : encode a (.ofAutomaton a left right) word m c ++ tail =
      before ++ p.left ++ behind) :
    ∃ move, c.pending? a = some move ∧ windowEnd a word c move ≤ m + 1 ∧
      p = windowed a (.ofAutomaton a left right) word c move ∧
      before = beforeWindow a (.ofAutomaton a left right) word c move ∧
      behind = behindWindow a (.ofAutomaton a left right) word m c move ++ tail := by
  have hv := clear_ofAutomaton ha hm
  have hinputs : ∀ letter ∈ word, letter ∈ (Vocabulary.ofAutomaton a left right).inputs := hword.2
  have htail' : ∀ s ∈ tail, ¬ Carries a s := fun s hs => not_carries_helper ha (htail s hs)
  obtain ⟨q, x, move, letter, hletter, hmove, hshape⟩ := (mem_transition_iff ha hm).mp hp
  have hq := Automaton.isState_of_move? hmove
  suffices hmade : c.pending? a = some move ∧ anchor word (c.apply a move) ≤ m ∧
      p = windowed a (.ofAutomaton a left right) word c move by
    obtain ⟨hmove, hanchor, rfl⟩ := hmade
    have hend : windowEnd a word c move ≤ m + 1 := by
      unfold windowEnd
      omega
    exact ⟨move, hmove, hend, rfl,
      around_of_windowed hv hinputs hword.1 h hle hroom htail' hend hform⟩
  have hpending : q = c.state → x = c.symbol a c.head → c.pending? a = some move := by
    rintro rfl rfl
    rw [h.pending?_eq]
    exact hmove
  have hlength : 0 < word.length := List.length_pos_iff.mpr hword.1
  cases hshape with
  | leaveLeft trail z hx hdir hz =>
    have hoccurs := hform.trans (List.append_assoc _ _ _)
    obtain ⟨⟨hplace, rfl, rfl, rfl⟩, -, -⟩ :=
      state_of_occurs hv hinputs hword.1 h hle hroom htail' hq hz hoccurs
    have hhead := (head_of_onLeft hplace).1
    have hread : x = c.symbol a c.head := by
      rw [hhead]
      exact hx.trans h.symbol_left.symm
    have hmade := hpending rfl hread
    have hhead' := Configuration.head_apply_right (a := a) (c := c) hdir
    refine ⟨hmade, by unfold anchor at hroom ⊢; omega, ?_⟩
    exact (windowed_leaveLeft hword.1 h (h.apply ha hm hmade) hplace hdir).symm
  | leaveRight lead z hx hdir hz =>
    have hoccurs := hform.trans (List.append_assoc _ _ _)
    obtain ⟨⟨hplace, rfl, rfl, rfl⟩, -, -⟩ :=
      state_of_occurs hv hinputs hword.1 h hle hroom htail' hq hz hoccurs
    have hhead := (head_of_onRight hplace).1
    have hread : x = c.symbol a c.head := by
      rw [hhead]
      exact hx.trans h.symbol_right.symm
    have hmade := hpending rfl hread
    have hhead' := Configuration.head_apply_left (a := a) (c := c) hdir
    refine ⟨hmade, by unfold anchor at hroom ⊢; omega, ?_⟩
    exact (windowed_leaveRight hword.1 h (h.apply ha hm hmade) hplace hdir).symm
  | ontoRight lead hx hdir =>
    have hoccurs := hform.trans (List.append_assoc _ _ _)
    obtain ⟨⟨hplace, rfl, hread, rfl⟩, -, -⟩ :=
      state_of_occurs hv hinputs hword.1 h hle hroom htail' hq hx hoccurs
    obtain ⟨hpos, hin, -, hlast⟩ := head_of_onCell h hplace
    have hlast := of_decide_eq_true hlast.symm
    have hhere : anchor word c = c.head := anchor_of_cell hpos hin
    have hmade := hpending rfl (by rw [hread, hhere])
    have hhead' := Configuration.head_apply_right (a := a) (c := c) hdir
    refine ⟨hmade, by unfold anchor at hroom ⊢; omega, ?_⟩
    rw [hread]
    exact (windowed_ontoRight hword.1 h (h.apply ha hm hmade) hplace hdir).symm
  | ontoLeft trail hx hdir =>
    have hoccurs := hform.trans (List.append_assoc _ _ _)
    obtain ⟨⟨hplace, rfl, hread, rfl⟩, -, -⟩ :=
      state_of_occurs hv hinputs hword.1 h hle hroom htail' hq hx hoccurs
    obtain ⟨hpos, hin, hfirst, -⟩ := head_of_onCell h hplace
    have hfirst := of_decide_eq_true hfirst.symm
    have hhere : anchor word c = c.head := anchor_of_cell hpos hin
    have hmade := hpending rfl (by rw [hread, hhere])
    have hhead' := Configuration.head_apply_left (a := a) (c := c) hdir
    refine ⟨hmade, by unfold anchor at hroom ⊢; omega, ?_⟩
    rw [hread]
    exact (windowed_ontoLeft hword.1 h (h.apply ha hm hmade) hplace hdir).symm
  | stepRight lead trail z b hx hdir hz hb =>
    have hoccurs := hform.trans (List.append_assoc _ _ _)
    obtain ⟨⟨hplace, rfl, hread, rfl⟩, -, hrest⟩ :=
      state_of_occurs hv hinputs hword.1 h hle hroom htail' hq hx hoccurs
    obtain ⟨hnext, rfl, rfl, rfl⟩ :=
      next_of_occurs hv hword.1 h hle hroom htail hz hrest
    obtain ⟨hpos, hin, -, -⟩ := head_of_onCell h hplace
    have hhere : anchor word c = c.head := anchor_of_cell hpos hin
    have hmade := hpending rfl (by rw [hread, hhere])
    have hhead' := Configuration.head_apply_right (a := a) (c := c) hdir
    refine ⟨hmade, by unfold anchor at hnext ⊢; omega, ?_⟩
    rw [hread]
    exact (windowed_stepRight hword.1 h (h.apply ha hm hmade) hplace hdir).symm
  | stepLeft lead trail z b hx hdir hz hb =>
    have hoccurs : encode a (.ofAutomaton a left right) word m c ++ tail =
        (before ++ [plain (.ofAutomaton a left right) lead false z b]) ++
          carrying (.ofAutomaton a left right) (.onCell false trail) q x letter :: behind := by
      rw [hform]
      simp
    obtain ⟨⟨hplace, rfl, hread, rfl⟩, hrest, -⟩ :=
      state_of_occurs hv hinputs hword.1 h hle hroom htail' hq hx hoccurs
    obtain ⟨rfl, rfl, rfl⟩ := previous_of_occurs hv hword.1 h hz hrest
    obtain ⟨hpos, hin, -, -⟩ := head_of_onCell h hplace
    have hhere : anchor word c = c.head := anchor_of_cell hpos hin
    have hmade := hpending rfl (by rw [hread, hhere])
    have hhead' := Configuration.head_apply_left (a := a) (c := c) hdir
    refine ⟨hmade, by unfold anchor at hroom ⊢; omega, ?_⟩
    rw [hread]
    exact (windowed_stepLeft hword.1 h (h.apply ha hm hmade) hplace hdir).symm

end TapeGrammar.ContextSensitive
