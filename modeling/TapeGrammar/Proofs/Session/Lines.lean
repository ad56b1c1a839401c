import Mathlib.Tactic.Common
import TapeGrammar.Session

/-!
# The lines of an input

An input that consists of texts, each followed by a line feed, is read back as these texts, save that
a text loses a carriage return at its end (`inputLines_piped`).  An input is bytes and is cut byte by
byte, so this rests on what UTF-8 does with the two control characters: a byte below 128 stands in the
encoding of the character with that code, and of no other.

A command does not depend on the carriage return that is lost (`Command.parse_chomp`).  It is white
space, and neither the words of a line nor the line as a report quotes it have white space at their
end.
-/

namespace TapeGrammar

/-! ## 1. The bytes of a text -/

/-- The bytes of a text in UTF-8. -/
def Text.bytes (cs : List Char) : List UInt8 := cs.flatMap String.utf8EncodeChar

namespace Text

variable {c d : Char} {cs : List Char}

/-- A byte below 128 stands for the character with that code. -/
theorem toNat_of_mem_encodeChar {byte : UInt8} (hsmall : byte.toNat < 128)
    (h : byte ∈ String.utf8EncodeChar c) : c.toNat = byte.toNat := by
  have hc : c.toNat = c.val.toNat := rfl
  have hbyte : ∀ n, (UInt8.ofNat n).toNat = n % 256 := fun n => UInt8.toNat_ofNat'
  unfold String.utf8EncodeChar at h
  simp only at h
  -- the encodings of two, three and four bytes have no byte below 128
  split at h
  · rw [List.mem_singleton] at h
    subst h
    rw [hbyte]
    omega
  · split_ifs at h <;> simp only [List.mem_cons, List.not_mem_nil, or_false] at h
    · rcases h with rfl | rfl <;> rw [hbyte] at hsmall <;> omega
    · rcases h with rfl | rfl | rfl <;> rw [hbyte] at hsmall <;> omega
    · rcases h with rfl | rfl | rfl | rfl <;> rw [hbyte] at hsmall <;> omega

theorem eq_of_mem_encodeChar (hd : d.toNat < 128)
    (h : UInt8.ofNat d.toNat ∈ String.utf8EncodeChar c) : c = d := by
  have hbyte : (UInt8.ofNat d.toNat).toNat = d.toNat := by
    rw [UInt8.toNat_ofNat']
    omega
  have hsame := toNat_of_mem_encodeChar (by omega) h
  exact Char.toNat_inj.mp (hsame.trans hbyte)

theorem mem_of_mem_bytes (hd : d.toNat < 128) (h : UInt8.ofNat d.toNat ∈ bytes cs) : d ∈ cs := by
  obtain ⟨c, hc, hbyte⟩ := List.mem_flatMap.mp h
  rwa [eq_of_mem_encodeChar hd hbyte] at hc

theorem bytes_append (cs ds : List Char) : bytes (cs ++ ds) = bytes cs ++ bytes ds :=
  List.flatMap_append

/-- A text that does not end with a character does not end with the byte for it. -/
theorem getLast?_bytes_ne (hd : d.toNat < 128) (h : cs.getLast? ≠ some d) :
    (bytes cs).getLast? ≠ some (UInt8.ofNat d.toNat) := by
  rcases List.eq_nil_or_concat cs with rfl | ⟨before, c, rfl⟩
  · simp [bytes]
  · have hsome : (String.utf8EncodeChar c).getLast?.isSome :=
      List.getLast?_isSome.mpr String.utf8EncodeChar_ne_nil
    rw [List.concat_eq_append, bytes_append, List.getLast?_append, bytes, bytes,
      List.flatMap_singleton, Option.or_of_isSome hsome]
    intro hlast
    have hc : c = d := eq_of_mem_encodeChar hd (List.mem_of_getLast? hlast)
    exact h (by rw [hc, List.concat_eq_append, List.getLast?_concat])

theorem toList_loop_eq (array : ByteArray) (i : Nat) (before : List UInt8) :
    ByteArray.toList.loop array i before = before.reverse ++ array.data.toList.drop i := by
  induction i, before using ByteArray.toList.loop.induct array with
  | case1 i before hi ih =>
    have hlt : i < array.data.toList.length := by simpa using hi
    rw [ByteArray.toList.loop.eq_def, if_pos hi, ih, List.drop_eq_getElem_cons hlt]
    simp [ByteArray.get!, hi]
  | case2 i before hi =>
    rw [ByteArray.toList.loop.eq_def, if_neg hi, List.drop_eq_nil_of_le (by simpa using hi),
      List.append_nil]

theorem toList_toUTF8 (text : String) : text.toUTF8.toList = bytes text.toList := by
  have hbytes : text.toByteArray = (bytes text.toList).toByteArray := by
    conv_lhs => rw [← String.ofList_toList (s := text)]
    exact String.toByteArray_ofList
  rw [ByteArray.toList, toList_loop_eq, String.toUTF8_eq_toByteArray, hbytes,
    List.toList_data_toByteArray, List.drop_zero, List.reverse_nil, List.nil_append]

/-- The bytes of a text are read as this text. -/
theorem fromUTF8?_bytes (cs : List Char) :
    String.fromUTF8? ⟨(bytes cs).toArray⟩ = some (String.ofList cs) := by
  have harray : (⟨(bytes cs).toArray⟩ : ByteArray) = cs.utf8Encode := by
    apply ByteArray.ext
    rw [List.utf8Encode, ← Array.toList_inj, List.toList_data_toByteArray]
    rfl
  rw [harray, String.fromUTF8?, dif_pos ByteArray.isValidUTF8_utf8Encode]
  rfl

end Text

/-! ## 2. Cutting an input into lines -/

namespace Session

/-- Texts as an input: each of them is followed by a line feed. -/
def piped (texts : List String) : ByteArray := (String.join (texts.map (· ++ "\n"))).toUTF8

/-- A text without the carriage return at its end. -/
def chomp (text : String) : String :=
  match text.toList.reverse with
  | '\r' :: cs => String.ofList cs.reverse
  | _ => text

theorem chomp_of_cr {text : String} {cs : List Char} (h : text.toList = cs ++ ['\r']) :
    chomp text = String.ofList cs := by
  simp [chomp, h]

theorem chomp_of_ne {text : String} (h : text.toList.getLast? ≠ some '\r') : chomp text = text := by
  unfold chomp
  split
  · rename_i cs hcs
    rw [← List.head?_reverse, hcs] at h
    exact absurd rfl h
  · rfl

/-- Bytes without a line feed go to the piece that the next line feed ends. -/
theorem piecesFrom_append {bytes : List UInt8} (h : 10 ∉ bytes) (piece rest : List UInt8) :
    piecesFrom piece (bytes ++ 10 :: rest) =
      (piece.reverse ++ bytes ++ [10]) :: piecesFrom [] rest := by
  induction bytes generalizing piece with
  | nil => simp [piecesFrom]
  | cons byte bytes ih =>
    rw [List.mem_cons, not_or] at h
    rw [List.cons_append, piecesFrom, if_neg (Ne.symm h.1), ih h.2]
    simp

/-- A line feed is taken off the end of a piece, and a carriage return before it. -/
theorem withoutEnd_concat_cr (bytes : List UInt8) : withoutEnd (bytes ++ [13] ++ [10]) = bytes := by
  simp [withoutEnd]

theorem withoutEnd_concat {bytes : List UInt8} (h : bytes.getLast? ≠ some 13) :
    withoutEnd (bytes ++ [10]) = bytes := by
  rcases List.eq_nil_or_concat bytes with rfl | ⟨before, last, rfl⟩
  · rfl
  · have hlast : last ≠ 13 := by simpa using h
    simp [withoutEnd, hlast]

/-- A text with a line feed after it is read as the text without a carriage return at its end. -/
theorem lineOfPiece_bytes (text : String) :
    lineOfPiece (Text.bytes text.toList ++ [10]) = some (chomp text) := by
  by_cases hlast : text.toList.getLast? = some '\r'
  · obtain ⟨cs, hcs⟩ := List.getLast?_eq_some_iff.mp hlast
    have hbytes : Text.bytes text.toList = Text.bytes cs ++ [13] := by
      rw [hcs, Text.bytes_append]
      rfl
    rw [lineOfPiece, hbytes, withoutEnd_concat_cr, Text.fromUTF8?_bytes, chomp_of_cr hcs]
  · rw [lineOfPiece, withoutEnd_concat (Text.getLast?_bytes_ne (by decide) hlast),
      Text.fromUTF8?_bytes, String.ofList_toList, chomp_of_ne hlast]

theorem toList_piped_cons (text : String) (texts : List String) :
    (piped (text :: texts)).toList = Text.bytes text.toList ++ 10 :: (piped texts).toList := by
  simp only [piped, Text.toList_toUTF8, List.map_cons, String.join_cons, String.toList_append,
    Text.bytes_append, List.append_assoc]
  rfl

/-- **The lines of texts that are followed by line feeds are these texts, without a carriage return
at their end.** -/
theorem inputLines_piped {texts : List String} (h : ∀ text ∈ texts, '\n' ∉ text.toList) :
    inputLines (piped texts) = texts.map fun text => some (chomp text) := by
  induction texts with
  | nil =>
    rw [inputLines, piped, Text.toList_toUTF8]
    rfl
  | cons text texts ih =>
    have hfeed : 10 ∉ Text.bytes text.toList := fun hmem =>
      h text List.mem_cons_self (Text.mem_of_mem_bytes (d := '\n') (by decide) hmem)
    rw [inputLines, toList_piped_cons, piecesFrom_append hfeed, List.map_cons, List.reverse_nil,
      List.nil_append, lineOfPiece_bytes, List.map_cons]
    exact congrArg _ (ih fun text' htext' => h text' (List.mem_cons_of_mem _ htext'))

end Session

/-! ## 3. White space at the end of a command -/

section TrailingSpace

variable {c : Char} {cs : List Char}

theorem Text.trim_concat (hc : isWhiteSpace c = true) : trim (cs ++ [c]) = trim cs := by
  unfold trim
  rw [List.dropWhile_append]
  split
  · rename_i hall
    rw [List.isEmpty_iff.mp hall, List.dropWhile_cons_of_pos hc]
    rfl
  · rw [List.reverse_append, List.reverse_singleton, List.singleton_append,
      List.dropWhile_cons_of_pos hc]

theorem Text.wordsFrom_concat (hc : isWhiteSpace c = true) (run : List Char) :
    wordsFrom run (cs ++ [c]) = wordsFrom run cs := by
  induction cs generalizing run with
  | nil => simp [wordsFrom, hc]
  | cons d cs ih => simp only [List.cons_append, wordsFrom, ih]

theorem Command.parse_ofList_concat (hc : Text.isWhiteSpace c = true) :
    parse (String.ofList (cs ++ [c])) = parse (String.ofList cs) := by
  simp only [parse, Text.words, String.toList_ofList, Text.trim_concat hc, Text.wordsFrom_concat hc]

end TrailingSpace

/-- **A command with a carriage return at its end is the same command without it.** -/
theorem Command.parse_chomp (line : String) : parse (Session.chomp line) = parse line := by
  by_cases hlast : line.toList.getLast? = some '\r'
  · obtain ⟨cs, hcs⟩ := List.getLast?_eq_some_iff.mp hlast
    rw [Session.chomp_of_cr hcs, ← parse_ofList_concat (by decide : Text.isWhiteSpace '\r' = true),
      ← hcs, String.ofList_toList]
  · rw [Session.chomp_of_ne hlast]

end TapeGrammar
