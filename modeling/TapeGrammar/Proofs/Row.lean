import Mathlib.Tactic.Common
import TapeGrammar.Form

/-!
# Rows

The symbols for consecutive positions, where a symbol is given for every position.  Positions are
integers, as they are on a tape; the length of a row from one position up to another one is
`(j - i).toNat`.
-/

namespace TapeGrammar

/-- The symbols for so many positions from `start` on. -/
def row (f : Int → Symbol) : (start : Int) → (length : Nat) → Form
  | _, 0 => []
  | start, length + 1 => f start :: row f (start + 1) length

@[simp] theorem length_row (f : Int → Symbol) (start : Int) (length : Nat) :
    (row f start length).length = length := by
  induction length generalizing start with
  | zero => rfl
  | succ length ih => rw [row, List.length_cons, ih]

theorem row_succ_last (f : Int → Symbol) (start : Int) (length : Nat) :
    row f start (length + 1) = row f start length ++ [f (start + length)] := by
  induction length generalizing start with
  | zero => simp [row]
  | succ length ih =>
    rw [row, ih, row, List.cons_append]
    congr 4
    omega

theorem getElem?_row (f : Int → Symbol) (start : Int) {i length : Nat} (h : i < length) :
    (row f start length)[i]? = some (f (start + i)) := by
  induction length generalizing start i with
  | zero => omega
  | succ length ih =>
    cases i with
    | zero => simp [row]
    | succ i =>
      rw [row, List.getElem?_cons_succ, ih (start + 1) (by omega)]
      congr 2
      omega

theorem row_congr {f f' : Int → Symbol} {start : Int} {length : Nat}
    (h : ∀ i, start ≤ i → i < start + length → f i = f' i) :
    row f start length = row f' start length := by
  induction length generalizing start with
  | zero => rfl
  | succ length ih =>
    rw [row, row, h start (by omega) (by omega), ih fun i hi hi' => h i (by omega) (by omega)]

theorem mem_row {f : Int → Symbol} {start : Int} {length : Nat} {s : Symbol}
    (h : s ∈ row f start length) : ∃ i, start ≤ i ∧ i < start + length ∧ s = f i := by
  induction length generalizing start with
  | zero => cases h
  | succ length ih =>
    rcases List.mem_cons.mp h with rfl | h
    · exact ⟨start, by omega, by omega, rfl⟩
    · obtain ⟨i, hi, hi', rfl⟩ := ih h
      exact ⟨i, by omega, by omega, rfl⟩

/-- Rows that meet make one row. -/
theorem row_append {f : Int → Symbol} {i j k : Int} (hij : i ≤ j) (hjk : j ≤ k) :
    row f i (j - i).toNat ++ row f j (k - j).toNat = row f i (k - i).toNat := by
  obtain ⟨n, rfl⟩ : ∃ n : Nat, k = j + n := ⟨(k - j).toNat, by omega⟩
  have hn : (j + (n : Int) - j).toNat = n := by omega
  rw [hn]
  clear hn hjk
  induction n with
  | zero => simp [row]
  | succ n ih =>
    have hlen : (j + ((n + 1 : Nat) : Int) - i).toNat = (j + (n : Int) - i).toNat + 1 := by omega
    have hpos : i + ((j + (n : Int) - i).toNat : Int) = j + (n : Int) := by omega
    rw [row_succ_last, ← List.append_assoc, ih, hlen, row_succ_last, hpos]

/-- A symbol that is put into a row parts it. -/
theorem insertIdx_row (f : Int → Symbol) (start : Int) (i length : Nat) (s : Symbol) :
    (row f start (i + length)).insertIdx i s =
      row f start i ++ s :: row f (start + i) length := by
  induction i generalizing start with
  | zero => simp [row]
  | succ i ih =>
    have hstart : start + 1 + (i : Int) = start + ((i + 1 : Nat) : Int) := by omega
    rw [Nat.succ_add, row, List.insertIdx_succ_cons, ih, row, List.cons_append, hstart]

/-- A row that is not empty begins with its first symbol. -/
theorem row_toNat_cons {f : Int → Symbol} {i j : Int} (h : i < j) :
    row f i (j - i).toNat = f i :: row f (i + 1) (j - (i + 1)).toNat := by
  obtain ⟨n, hn⟩ : ∃ n, (j - i).toNat = n + 1 := ⟨(j - i).toNat - 1, by omega⟩
  have hn' : (j - (i + 1)).toNat = n := by omega
  rw [hn, hn', row]

/-- A row that is not empty ends with its last symbol. -/
theorem row_toNat_concat {f : Int → Symbol} {i j : Int} (h : i < j) :
    row f i (j - i).toNat = row f i (j - 1 - i).toNat ++ [f (j - 1)] := by
  obtain ⟨n, hn⟩ : ∃ n, (j - i).toNat = n + 1 := ⟨(j - i).toNat - 1, by omega⟩
  have hn' : (j - 1 - i).toNat = n := by omega
  have hj : i + (n : Int) = j - 1 := by omega
  rw [hn, hn', row_succ_last, hj]

end TapeGrammar
