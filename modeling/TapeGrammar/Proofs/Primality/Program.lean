import TapeGrammar.Proofs.Trail

/-!
# The program that decides primality

The machine works on a word of `n` digits `1`.  Between its scans the tape shows four bands: of the
PREFIX, which is as long as the divisor in question, the cells that have been used in the current
round and those that have not; of the other cells, those that have been crossed out and those that
have not.

```text
 left  u u u d d  x x x x x x x x  1 1 1 1  right
       0     k    p                e        n
```

Each phase of the program is a scan or a few moves from one such row to another.  They are put
together to the two things that the machine does with a divisor: it crosses out one more cell
(`leads_cross`), and when no cell is left it draws a conclusion (`leads_accept`, `leads_reject`) or
takes up the next divisor (`leads_extend`).
-/

namespace TapeGrammar.Primality

/-! ## 1. The moves -/

/-- The moves of the program on a tape whose word stands between two cells with the given symbols. -/
def program (left right : String) : List (Situation × Move) :=
  [(⟨"q0", "1"⟩, ⟨"q1", "d", .right⟩),
    (⟨"q1", "1"⟩, ⟨"seek", "d", .right⟩),
    (⟨"seek", "d"⟩, ⟨"seek", "d", .right⟩),
    (⟨"seek", "u"⟩, ⟨"seek", "u", .right⟩),
    (⟨"seek", "x"⟩, ⟨"seek", "x", .right⟩),
    (⟨"seek", "1"⟩, ⟨"back", "x", .left⟩),
    (⟨"seek", right⟩, ⟨"check", right, .left⟩),
    (⟨"back", "x"⟩, ⟨"back", "x", .left⟩),
    (⟨"back", "u"⟩, ⟨"back", "u", .left⟩),
    (⟨"back", "d"⟩, ⟨"back", "d", .left⟩),
    (⟨"back", left⟩, ⟨"use", left, .right⟩),
    (⟨"use", "u"⟩, ⟨"use", "u", .right⟩),
    (⟨"use", "d"⟩, ⟨"seek", "u", .right⟩),
    (⟨"use", "x"⟩, ⟨"reset", "x", .left⟩),
    (⟨"reset", "u"⟩, ⟨"reset", "d", .left⟩),
    (⟨"reset", left⟩, ⟨"use", left, .right⟩),
    (⟨"check", "x"⟩, ⟨"check", "x", .left⟩),
    (⟨"check", "u"⟩, ⟨"check", "u", .left⟩),
    (⟨"check", "d"⟩, ⟨"check", "d", .left⟩),
    (⟨"check", left⟩, ⟨"verify", left, .right⟩),
    (⟨"verify", "d"⟩, ⟨"accept", "d", .right⟩),
    (⟨"verify", "u"⟩, ⟨"tally", "u", .right⟩),
    (⟨"tally", "u"⟩, ⟨"tally", "u", .right⟩),
    (⟨"tally", "d"⟩, ⟨"rewind", "d", .left⟩),
    (⟨"tally", "x"⟩, ⟨"reject", "x", .right⟩),
    (⟨"rewind", "u"⟩, ⟨"rewind", "u", .left⟩),
    (⟨"rewind", left⟩, ⟨"spread", left, .right⟩),
    (⟨"spread", "u"⟩, ⟨"spread", "d", .right⟩),
    (⟨"spread", "d"⟩, ⟨"spread", "d", .right⟩),
    (⟨"spread", "x"⟩, ⟨"spread", "1", .right⟩),
    (⟨"spread", right⟩, ⟨"settle", right, .left⟩),
    (⟨"settle", "1"⟩, ⟨"settle", "1", .left⟩),
    (⟨"settle", "d"⟩, ⟨"extend", "d", .right⟩),
    (⟨"extend", "1"⟩, ⟨"seek", "d", .right⟩)]

/-- The automaton makes the moves of the program. -/
def Follows (a : Automaton) (left right : String) : Prop :=
  ∀ {state read : String} {move : Move}, (⟨state, read⟩, move) ∈ program left right →
    a.move? state read = some move

/-! ## 2. Rows -/

/-- The row with the first `k` cells of a prefix of length `p` used, and the cells between the prefix
and `e` crossed out. -/
def band (left right : String) (n k p e : Int) (i : Int) : String :=
  if i < 0 then left
  else if i < k then "u"
  else if i < p then "d"
  else if i < e then "x"
  else if i < n then "1"
  else right

section Band

variable {left right : String} {n k p e i : Int}

theorem band_left (h : i < 0) : band left right n k p e i = left := if_pos h

theorem band_used (h : 0 ≤ i) (hk : i < k) : band left right n k p e i = "u" := by
  rw [band, if_neg (by omega), if_pos hk]

theorem band_divisor (h : 0 ≤ i) (hk : k ≤ i) (hp : i < p) :
    band left right n k p e i = "d" := by
  rw [band, if_neg (by omega), if_neg (by omega), if_pos hp]

theorem band_crossed (h : 0 ≤ i) (hk : k ≤ i) (hp : p ≤ i) (he : i < e) :
    band left right n k p e i = "x" := by
  rw [band, if_neg (by omega), if_neg (by omega), if_neg (by omega), if_pos he]

theorem band_digit (h : 0 ≤ i) (hk : k ≤ i) (hp : p ≤ i) (he : e ≤ i) (hn : i < n) :
    band left right n k p e i = "1" := by
  rw [band, if_neg (by omega), if_neg (by omega), if_neg (by omega), if_neg (by omega), if_pos hn]

theorem band_right (h : 0 ≤ i) (hk : k ≤ i) (hp : p ≤ i) (he : e ≤ i) (hn : n ≤ i) :
    band left right n k p e i = right := by
  rw [band, if_neg (by omega), if_neg (by omega), if_neg (by omega), if_neg (by omega),
    if_neg (by omega)]

/-- The row of a number that the program has not changed yet. -/
theorem band_number {n i : Nat} : band left right n 0 0 0 i = if i < n then "1" else right := by
  split
  · exact band_digit (by omega) (by omega) (by omega) (by omega) (by omega)
  · exact band_right (by omega) (by omega) (by omega) (by omega) (by omega)

/-- A cell that is on the same side of the three bounds holds the same symbol. -/
theorem band_congr {k' p' e' : Int} (hk : i < k ↔ i < k') (hp : i < p ↔ i < p')
    (he : i < e ↔ i < e') : band left right n k p e i = band left right n k' p' e' i := by
  simp only [band, hk, hp, he]

/-- The cells of the word up to the last crossed one hold one of three symbols. -/
theorem band_cases (h : 0 ≤ i) (he : i < e) :
    band left right n k p e i = "u" ∨ band left right n k p e i = "d" ∨
      band left right n k p e i = "x" := by
  by_cases hk : i < k
  · exact .inl (band_used h hk)
  · by_cases hp : i < p
    · exact .inr (.inl (band_divisor h (by omega) hp))
    · exact .inr (.inr (band_crossed h (by omega) (by omega) he))

end Band

/-! ## 3. Turns and scans -/

variable {a : Automaton} {left right : String} {origin : Int} {n : Nat} {k p e i : Int}
  {state state' : String}

/-- From the cell before the word the head turns back. -/
theorem leads_from_left (hstate : a.move? state left = some ⟨state', left, .right⟩) :
    Leads a origin n ⟨state, -1, band left right n k p e⟩
      ⟨state', 0, band left right n k p e⟩ := by
  refine .right ?_ (fun _ _ => rfl) (Int.le_refl _) (by omega)
  rw [band_left (by omega)]
  exact hstate

/-- From the cell behind the word the head turns back. -/
theorem leads_from_right (hstate : a.move? state right = some ⟨state', right, .left⟩)
    (hkn : k ≤ n) (hpn : p ≤ n) (hen : e ≤ n) :
    Leads a origin n ⟨state, n, band left right n k p e⟩
      ⟨state', n - 1, band left right n k p e⟩ := by
  refine .left ?_ (fun _ _ => rfl) (by omega) (Int.le_refl _)
  rw [band_right (by omega) hkn hpn hen (Int.le_refl _)]
  exact hstate

/-- In a state that keeps the symbols of the word, the head returns to the cell before it. -/
theorem leads_home
    (hstate : ∀ x, x = "u" ∨ x = "d" ∨ x = "x" → a.move? state x = some ⟨state, x, .left⟩)
    (hi : -1 ≤ i) (hie : i < e) (hen : e ≤ n) :
    Leads a origin n ⟨state, i, band left right n k p e⟩ ⟨state, -1, band left right n k p e⟩ := by
  refine .scan_left hi (by omega) (by omega) (fun j hj hji => ?_) fun _ _ => rfl
  exact hstate _ (band_cases (by omega) (by omega))

/-- In a state that keeps the used cells, the head goes on to the first that is not used. -/
theorem leads_over_used (hstate : a.move? state "u" = some ⟨state, "u", .right⟩)
    (hi : 0 ≤ i) (hik : i ≤ k) (hkn : k ≤ n) :
    Leads a origin n ⟨state, i, band left right n k p e⟩ ⟨state, k, band left right n k p e⟩ := by
  refine .scan_right hik (by omega) hkn (fun j hj hjk => ?_) fun _ _ => rfl
  rw [band_used (by omega) hjk]
  exact hstate

section Scans

variable (hw : Follows a left right)

include hw

/-- The head looks for the first cell that is neither of the prefix nor crossed. -/
theorem leads_seek (hi : 0 ≤ i) (hie : i ≤ e) (hen : e ≤ n) :
    Leads a origin n ⟨"seek", i, band left right n k p e⟩ ⟨"seek", e, band left right n k p e⟩ := by
  refine .scan_right hie (by omega) hen (fun j hj hje => ?_) fun _ _ => rfl
  rcases band_cases (i := j) (by omega) hje with h | h | h <;> rw [h] <;>
    exact hw (by simp [program])

/-- All cells of the prefix are taken as not used again. -/
theorem leads_reset (hp : 0 ≤ p) (hpn : p ≤ n) :
    Leads a origin n ⟨"reset", p - 1, band left right n p p e⟩
      ⟨"reset", -1, band left right n 0 p e⟩ := by
  refine .scan_left (by omega) (by omega) (by omega) (fun j hj hjp => ?_) (fun j hj => ?_)
  · rw [band_used (by omega) (by omega), band_divisor (by omega) (by omega) (by omega)]
    exact hw (by simp [program])
  · exact band_congr (by omega) (by omega) (by omega)

/-- All marks are taken back, up to the end of the word. -/
theorem leads_spread (hk : 0 ≤ k) (hkp : k ≤ p) (hpn : p ≤ n) :
    Leads a origin n ⟨"spread", 0, band left right n k p n⟩
      ⟨"spread", n, band left right n 0 p p⟩ := by
  refine .scan_right (by omega) (by omega) (by omega) (fun j hj hjn => ?_) (fun j hj => ?_)
  · by_cases hjp : j < p
    · rw [band_divisor (k := 0) hj hj hjp]
      by_cases hjk : j < k
      · rw [band_used hj hjk]
        exact hw (by simp [program])
      · rw [band_divisor hj (by omega) hjp]
        exact hw (by simp [program])
    · rw [band_crossed hj (by omega) (by omega) hjn,
        band_digit hj hj (by omega) (by omega) hjn]
      exact hw (by simp [program])
  · exact band_congr (by omega) (by omega) (by omega)

/-- From the end of the word the head returns to the prefix. -/
theorem leads_settle (hp : 0 ≤ p) (hpn : p ≤ n) :
    Leads a origin n ⟨"settle", n - 1, band left right n 0 p p⟩
      ⟨"settle", p - 1, band left right n 0 p p⟩ := by
  refine .scan_left (by omega) (by omega) (by omega) (fun j hj hjn => ?_) fun _ _ => rfl
  rw [band_digit (by omega) (by omega) (by omega) (by omega) (by omega)]
  exact hw (by simp [program])

/-! ## 4. Crossing a cell -/

/-- The next cell of the prefix is used. -/
theorem leads_use (hk : 0 ≤ k) (hkp : k < p) (hpe : p ≤ e) (hen : e ≤ n) :
    Leads a origin n ⟨"use", 0, band left right n k p e⟩
      ⟨"seek", e, band left right n (k + 1) p e⟩ := by
  have hmark : Leads a origin n ⟨"use", k, band left right n k p e⟩
      ⟨"seek", k + 1, band left right n (k + 1) p e⟩ := by
    refine .right ?_ (fun j hj => ?_) (by omega) (by omega)
    · rw [band_divisor hk (Int.le_refl k) hkp, band_used hk (by omega)]
      exact hw (by simp [program])
    · exact band_congr (by omega) (by omega) (by omega)
  calc Leads a origin n _ ⟨"use", k, band left right n k p e⟩ :=
        leads_over_used (hw (by simp [program])) (Int.le_refl 0) hk (by omega)
    Leads a origin n _ ⟨"seek", k + 1, band left right n (k + 1) p e⟩ := hmark
    Leads a origin n _ _ := leads_seek hw (by omega) (by omega) hen

/-- Once a cell has been crossed, a cell of the prefix is used for it; if none is left to be used, a
new round begins. -/
theorem leads_count (hk : 0 ≤ k) (hkp : k ≤ p) (hp : 0 < p) (hpe : p < e) (hen : e ≤ n) :
    Leads a origin n ⟨"use", 0, band left right n k p e⟩
      ⟨"seek", e, band left right n (if k = p then 1 else k + 1) p e⟩ := by
  split
  · rename_i hfull
    subst hfull
    have hturn : Leads a origin n ⟨"use", k, band left right n k k e⟩
        ⟨"reset", k - 1, band left right n k k e⟩ := by
      refine .left ?_ (fun _ _ => rfl) hk (by omega)
      rw [band_crossed hk (Int.le_refl k) (Int.le_refl k) hpe]
      exact hw (by simp [program])
    calc Leads a origin n _ ⟨"use", k, band left right n k k e⟩ :=
          leads_over_used (hw (by simp [program])) (Int.le_refl 0) hk (by omega)
      Leads a origin n _ ⟨"reset", k - 1, band left right n k k e⟩ := hturn
      Leads a origin n _ ⟨"reset", -1, band left right n 0 k e⟩ := leads_reset hw hk (by omega)
      Leads a origin n _ ⟨"use", 0, band left right n 0 k e⟩ :=
        leads_from_left (hw (by simp [program]))
      Leads a origin n _ _ := leads_use hw (Int.le_refl 0) hp (by omega) hen
  · exact leads_use hw hk (by omega) (by omega) hen

/-- **One more cell is crossed out.** -/
theorem leads_cross (hk : 0 ≤ k) (hkp : k ≤ p) (hp : 0 < p) (hpe : p ≤ e) (hen : e < n) :
    Leads a origin n ⟨"seek", e, band left right n k p e⟩
      ⟨"seek", e + 1, band left right n (if k = p then 1 else k + 1) p (e + 1)⟩ := by
  have hcross : Leads a origin n ⟨"seek", e, band left right n k p e⟩
      ⟨"back", e - 1, band left right n k p (e + 1)⟩ := by
    refine .left ?_ (fun j hj => ?_) (by omega) (by omega)
    · rw [band_digit (by omega) (by omega) hpe (Int.le_refl e) hen,
        band_crossed (by omega) (by omega) hpe (by omega)]
      exact hw (by simp [program])
    · exact band_congr (by omega) (by omega) (by omega)
  have hreturn : Leads a origin n ⟨"back", e - 1, band left right n k p (e + 1)⟩
      ⟨"back", -1, band left right n k p (e + 1)⟩ := by
    refine leads_home (fun x hx => ?_) (by omega) (by omega) (by omega)
    rcases hx with rfl | rfl | rfl <;> exact hw (by simp [program])
  calc Leads a origin n _ ⟨"back", e - 1, band left right n k p (e + 1)⟩ := hcross
    Leads a origin n _ ⟨"back", -1, band left right n k p (e + 1)⟩ := hreturn
    Leads a origin n _ ⟨"use", 0, band left right n k p (e + 1)⟩ :=
      leads_from_left (hw (by simp [program]))
    Leads a origin n _ _ := leads_count hw hk hkp hp (by omega) (by omega)

/-! ## 5. No cell left -/

/-- With no cell left the prefix is inspected. -/
theorem leads_verify (hkp : k ≤ p) (hpn : p ≤ n) :
    Leads a origin n ⟨"seek", n, band left right n k p n⟩
      ⟨"verify", 0, band left right n k p n⟩ := by
  have hreturn : Leads a origin n ⟨"check", n - 1, band left right n k p n⟩
      ⟨"check", -1, band left right n k p n⟩ := by
    refine leads_home (fun x hx => ?_) (by omega) (by omega) (by omega)
    rcases hx with rfl | rfl | rfl <;> exact hw (by simp [program])
  calc Leads a origin n _ ⟨"check", n - 1, band left right n k p n⟩ :=
        leads_from_right (hw (by simp [program])) (by omega) hpn (Int.le_refl _)
    Leads a origin n _ ⟨"check", -1, band left right n k p n⟩ := hreturn
    Leads a origin n _ _ := leads_from_left (hw (by simp [program]))

/-- **If no cell has ever been crossed, the word is accepted.** -/
theorem leads_accept (hn : 1 < n) :
    Leads a origin n ⟨"seek", n, band left right n 0 n n⟩
      ⟨"accept", 1, band left right n 0 n n⟩ := by
  have haccept : Leads a origin n ⟨"verify", 0, band left right n 0 n n⟩
      ⟨"accept", 1, band left right n 0 n n⟩ := by
    refine .right ?_ (fun _ _ => rfl) (by omega) (by omega)
    rw [band_divisor (Int.le_refl 0) (Int.le_refl 0) (by omega)]
    exact hw (by simp [program])
  exact (leads_verify hw (by omega) (Int.le_refl _)).trans haccept

/-- The used cells are counted, up to the first cell that is not used. -/
theorem leads_tally (hk : 0 < k) (hkp : k ≤ p) (hpn : p < n) :
    Leads a origin n ⟨"seek", n, band left right n k p n⟩
      ⟨"tally", k, band left right n k p n⟩ := by
  have hfirst : Leads a origin n ⟨"verify", 0, band left right n k p n⟩
      ⟨"tally", 1, band left right n k p n⟩ := by
    refine .right ?_ (fun _ _ => rfl) (by omega) (by omega)
    rw [band_used (Int.le_refl 0) hk]
    exact hw (by simp [program])
  calc Leads a origin n _ ⟨"verify", 0, band left right n k p n⟩ :=
        leads_verify hw hkp (by omega)
    Leads a origin n _ ⟨"tally", 1, band left right n k p n⟩ := hfirst
    Leads a origin n _ _ := leads_over_used (hw (by simp [program])) (by omega) hk (by omega)

/-- **If the last round has used the whole prefix, the word is rejected.** -/
theorem leads_reject (hp : 0 < p) (hpn : p < n) :
    Leads a origin n ⟨"seek", n, band left right n p p n⟩
      ⟨"reject", p + 1, band left right n p p n⟩ := by
  have hreject : Leads a origin n ⟨"tally", p, band left right n p p n⟩
      ⟨"reject", p + 1, band left right n p p n⟩ := by
    refine .right ?_ (fun _ _ => rfl) (by omega) hpn
    rw [band_crossed (by omega) (Int.le_refl p) (Int.le_refl p) hpn]
    exact hw (by simp [program])
  exact (leads_tally hw hp (Int.le_refl p) hpn).trans hreject

/-- **If it has used a part of the prefix only, the prefix is extended by one cell**, and all marks
are taken back. -/
theorem leads_extend (hk : 0 < k) (hkp : k < p) (hpn : p < n) :
    Leads a origin n ⟨"seek", n, band left right n k p n⟩
      ⟨"seek", p + 1, band left right n 0 (p + 1) (p + 1)⟩ := by
  have hpart : Leads a origin n ⟨"tally", k, band left right n k p n⟩
      ⟨"rewind", k - 1, band left right n k p n⟩ := by
    refine .left ?_ (fun _ _ => rfl) (by omega) (by omega)
    rw [band_divisor (by omega) (Int.le_refl k) hkp]
    exact hw (by simp [program])
  have hrewind : Leads a origin n ⟨"rewind", k - 1, band left right n k p n⟩
      ⟨"rewind", -1, band left right n k p n⟩ := by
    refine .scan_left (by omega) (by omega) (by omega) (fun j hj hjk => ?_) fun _ _ => rfl
    rw [band_used (by omega) (by omega)]
    exact hw (by simp [program])
  have hprefix : Leads a origin n ⟨"settle", p - 1, band left right n 0 p p⟩
      ⟨"extend", p - 1 + 1, band left right n 0 p p⟩ := by
    refine .right ?_ (fun _ _ => rfl) (by omega) (by omega)
    rw [band_divisor (by omega) (by omega) (by omega)]
    exact hw (by simp [program])
  rw [Int.sub_add_cancel] at hprefix
  have hextend : Leads a origin n ⟨"extend", p, band left right n 0 p p⟩
      ⟨"seek", p + 1, band left right n 0 (p + 1) (p + 1)⟩ := by
    refine .right ?_ (fun j hj => ?_) (by omega) hpn
    · rw [band_digit (by omega) (by omega) (Int.le_refl p) (Int.le_refl p) hpn,
        band_divisor (by omega) (by omega) (by omega)]
      exact hw (by simp [program])
    · exact band_congr Iff.rfl (by omega) (by omega)
  calc Leads a origin n _ ⟨"tally", k, band left right n k p n⟩ := leads_tally hw hk (by omega) hpn
    Leads a origin n _ ⟨"rewind", k - 1, band left right n k p n⟩ := hpart
    Leads a origin n _ ⟨"rewind", -1, band left right n k p n⟩ := hrewind
    Leads a origin n _ ⟨"spread", 0, band left right n k p n⟩ :=
      leads_from_left (hw (by simp [program]))
    Leads a origin n _ ⟨"spread", n, band left right n 0 p p⟩ :=
      leads_spread hw (by omega) (by omega) (by omega)
    Leads a origin n _ ⟨"settle", n - 1, band left right n 0 p p⟩ :=
      leads_from_right (hw (by simp [program])) (by omega) (by omega) (by omega)
    Leads a origin n _ ⟨"settle", p - 1, band left right n 0 p p⟩ :=
      leads_settle hw (by omega) (by omega)
    Leads a origin n _ ⟨"extend", p, band left right n 0 p p⟩ := hprefix
    Leads a origin n _ _ := hextend

end Scans

end TapeGrammar.Primality
