import TapeGrammar.Automaton
import TapeGrammar.Text.Blank
import TapeGrammar.Text.Size

/-!
# Commands

A session is driven by lines of words:

```text
ck0 <n>   check the unary number n in the unrestricted grammar
ck1 <n>   check the unary number n in the context-sensitive grammar
q         quit
```
-/

namespace TapeGrammar

/-- What a session can be asked for. -/
inductive Command where
  /-- Check a unary number in the grammar of the machine of the given kind. -/
  | check (kind : Kind) (n : Nat)
  | quit
  deriving DecidableEq

/-- Why a line is no command. -/
inductive CommandError where
  /-- The line holds no words. -/
  | empty
  /-- The words are not those of a command; the line is kept without the white space around it. -/
  | unknown (line : String)
  /-- The number is not a positive integer of 64 bits. -/
  | notPositive (word : String)
  deriving DecidableEq

/-- The report of a line that is no command. -/
def CommandError.message : CommandError → String
  | .empty => "Empty command"
  | .unknown line => s!"Unknown command '{line}'"
  | .notPositive word => s!"Expected a positive integer, got '{word}'"

namespace Command

/-- The word that asks for a check in the grammar of a machine of the given kind. -/
def checkWord : Kind → String
  | .unbounded => "ck0"
  | .bounded => "ck1"

/-- The kind that a word asks for. -/
def kindOfWord? (word : String) : Option Kind :=
  if word = checkWord .unbounded then some .unbounded
  else if word = checkWord .bounded then some .bounded
  else none

/-- A check with a number in its written form. -/
def ofNumber (kind : Kind) (word : String) : Except CommandError Command :=
  match Text.size? word with
  | some n => if 0 < n then .ok (.check kind n) else .error (.notPositive word)
  | none => .error (.notPositive word)

/-- The command of a line. -/
def parse (line : String) : Except CommandError Command :=
  let unknown : CommandError := .unknown (String.ofList (Text.trim line.toList))
  match Text.words line with
  | [] => .error .empty
  | [word] => if word = "q" then .ok .quit else .error unknown
  | [word, number] =>
    match kindOfWord? word with
    | some kind => ofNumber kind number
    | none => .error unknown
  | _ => .error unknown

end Command

end TapeGrammar
