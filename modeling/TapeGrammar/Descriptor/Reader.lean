import TapeGrammar.Descriptor.SyntaxError

/-!
# Reading with a memory of what was missed

A READER looks at a place of a text and either finds something there, and says where the text goes
on, or does not.  Choices are made once: a repetition takes as many turns as it can, an optional
part is taken if it is there, and neither is ever tried again.

When the text as a whole cannot be read, the useful thing to report is what was missed at the place
furthest into the text that any attempt has reached.  So besides its result every reader hands on a
memory of the ATTEMPTS: the furthest place at which a part of a descriptor was missed, and the parts
that were missed there.  The memory is only ever written to: no reader looks at it, so what is found
does not depend on it.
-/

namespace TapeGrammar.Descriptor

/-! ## 1. Places and attempts -/

/-- A place in a text: the number of characters before it, and the characters from it on. -/
structure Place where
  offset : Nat
  rest : List Char

/-- The furthest place at which a part was missed, and the parts missed there in the order of the
attempts. -/
structure Attempts where
  furthest : Nat
  missed : List Part

namespace Attempts

/-- Nothing has been attempted yet. -/
def none : Attempts := ⟨0, []⟩

/-- The number of parts that are remembered for a place. -/
def countAt (attempts : Attempts) (offset : Nat) : Nat :=
  if offset = attempts.furthest then attempts.missed.length else 0

/-- Remembers that `part` was missed at `offset`, where `before` parts had been missed when the
attempt began.  If exactly one smaller part was missed at that place meanwhile, that one says more
and is kept instead; otherwise the part stands for all the smaller ones. -/
def miss (attempts : Attempts) (part : Part) (offset before : Nat) : Attempts :=
  if attempts.countAt offset - before = 1 then attempts
  else if offset = attempts.furthest then
    ⟨offset, attempts.missed.take before ++ [part]⟩
  else if attempts.furthest < offset then ⟨offset, [part]⟩
  else attempts

end Attempts

/-! ## 2. Readers -/

/-- A reader of `α`: what is found at a place, with the place behind it, and the attempts made. -/
def Reader (α : Type) : Type := Place → Attempts → Option (α × Place) × Attempts

namespace Reader

variable {α β : Type}

/-- Finds `value` anywhere, and takes nothing. -/
def pure (value : α) : Reader α := fun place attempts => (some (value, place), attempts)

/-- Finds nothing anywhere. -/
def fail : Reader α := fun _ attempts => (none, attempts)

/-- Reads on behind what a first reader has found. -/
def bind (first : Reader α) (next : α → Reader β) : Reader β := fun place attempts =>
  match first place attempts with
  | (some (value, after), attempts) => next value after attempts
  | (none, attempts) => (none, attempts)

instance : Monad Reader where
  pure := Reader.pure
  bind := Reader.bind

/-- Reads a part if it is there, and takes nothing otherwise. -/
def optional (reader : Reader α) : Reader (Option α) := fun place attempts =>
  match reader place attempts with
  | (some (value, after), attempts) => (some (some value, after), attempts)
  | (none, attempts) => (some (none, place), attempts)

/-- Reads a part as often as it is there, but at most `bound` times. -/
def upTo : (bound : Nat) → Reader α → Reader (List α)
  | 0, _ => Reader.pure []
  | bound + 1, reader => fun place attempts =>
    match reader place attempts with
    | (some (value, after), attempts) =>
      match upTo bound reader after attempts with
      | (some (values, last), attempts) => (some (value :: values, last), attempts)
      | (none, attempts) => (none, attempts)
    | (none, attempts) => (some ([], place), attempts)

/-- Reads a part as often as it is there.  A part takes at least one character, so the length of
the text bounds the number of turns. -/
def many (reader : Reader α) : Reader (List α) := fun place =>
  upTo (place.rest.length + 1) reader place

/-- Remembers a failure of the reader as a missed part. -/
def named (part : Part) (reader : Reader α) : Reader α := fun place attempts =>
  let before := attempts.countAt place.offset
  match reader place attempts with
  | (some found, attempts) => (some found, attempts)
  | (none, attempts) => (none, attempts.miss part place.offset before)

/-- Something found, with the stretch of the text that it takes. -/
structure Located (α : Type) where
  value : α
  offset : Nat
  width : Nat

/-- Adds the stretch that is read. -/
def located (reader : Reader α) : Reader (Located α) := fun place attempts =>
  match reader place attempts with
  | (some (value, after), attempts) =>
    (some (⟨value, place.offset, after.offset - place.offset⟩, after), attempts)
  | (none, attempts) => (none, attempts)

/-! ## 3. Characters -/

/-- Passes over the characters that satisfy `p` and gives them. -/
def takeWhile (p : Char → Bool) : Reader (List Char) := fun place attempts =>
  let taken := place.rest.takeWhile p
  (some (taken, ⟨place.offset + taken.length, place.rest.dropWhile p⟩), attempts)

/-- Passes over a given text. -/
def literal (text : List Char) : Reader Unit := fun place attempts =>
  if text.isPrefixOf place.rest then
    (some ((), ⟨place.offset + text.length, place.rest.drop text.length⟩), attempts)
  else (none, attempts)

/-- Passes over a line end: a line feed, a carriage return, or both in this order. -/
def lineEnd : Reader Unit := fun place attempts =>
  match place.rest with
  | '\n' :: rest => (some ((), ⟨place.offset + 1, rest⟩), attempts)
  | '\r' :: '\n' :: rest => (some ((), ⟨place.offset + 2, rest⟩), attempts)
  | '\r' :: rest => (some ((), ⟨place.offset + 1, rest⟩), attempts)
  | _ => (none, attempts)

/-- Succeeds at the end of the text only. -/
def endOfText : Reader Unit := fun place attempts =>
  if place.rest.isEmpty then (some ((), place), attempts) else (none, attempts)

end Reader

end TapeGrammar.Descriptor
