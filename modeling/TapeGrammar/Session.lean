import TapeGrammar.Derivation.Confined
import TapeGrammar.Report.Serial
import TapeGrammar.Session.Command

/-!
# Sessions

A session holds the two grammars that were compiled at its beginning and answers commands one after
the other.  An answer is a piece of text for the standard output or for the standard error, and says
whether the session goes on.  Nothing that a command does changes the answer to a later one.

Commands come as a script or as the lines of an input; both are answered by the same
`Session.reply?`, line by line.
-/

namespace TapeGrammar

/-! ## 1. Sessions -/

/-- The switches that all commands share. -/
structure Preferences where
  /-- Run the machine directly too, and compare. -/
  oracle : Bool
  maxSteps : Option Nat
  /-- Report in JSON. -/
  json : Bool
  /-- Leave traces out. -/
  quiet : Bool
  deriving DecidableEq

/-- The grammars of a Turing machine and of a bounded automaton, with the switches. -/
structure Session where
  unrestricted : Grammar
  contextSensitive : Grammar
  preferences : Preferences

/-- Why a command has no report. -/
inductive SessionError where
  | check (cause : CheckError)
  | run (cause : RunError)
  /-- The direct run and the derivation differ in the verdict or in the number of steps. -/
  | disagreement (outcome : Outcome) (verdict : Verdict)
  deriving DecidableEq

/-- The message in place of a report. -/
def SessionError.message : SessionError → String
  | .check cause => cause.message
  | .run cause => cause.message
  | .disagreement outcome verdict =>
    "Internal invariant violated: Direct run disagrees: " ++ outcome.text ++ ", derivation: "
      ++ verdict.text

namespace Session

/-- The session of two machines. -/
def ofAutomata (turing bounded : Automaton) (preferences : Preferences) : Session :=
  ⟨.ofAutomaton turing, .ofAutomaton bounded, preferences⟩

/-- The grammar of the machine of a kind. -/
def grammar (session : Session) : Kind → Grammar
  | .unbounded => session.unrestricted
  | .bounded => session.contextSensitive

/-- What is shown at the beginning: the sizes of both machines and grammars. -/
def greeting (session : Session) : String :=
  "\n\n".intercalate ([session.unrestricted, session.contextSensitive].map fun g =>
    g.automaton.sizes.text ++ "\n" ++ g.sizes.text)

/-! ## 2. Checking a number -/

/-- The outcome of the direct run, which has to agree with the verdict.  Without the switch nothing
is run. -/
def crossCheck (session : Session) (g : Grammar) (fuel n : Nat) (verdict : Verdict) :
    Option (Except SessionError (Option Outcome)) :=
  if session.preferences.oracle then
    match (Configuration.initial g.automaton).run g.automaton session.preferences.maxSteps fuel
        (Unary.word n) with
    | none => none
    | some (.error error, _) => some (.error (.run error))
    | some (.ok outcome, _) =>
      if outcome.accepted = verdict.isAccepted ∧ outcome.steps = verdict.halt.steps then
        some (.ok (some outcome))
      else some (.error (.disagreement outcome verdict))
  else some (.ok none)

/-- The report in JSON. -/
def jsonReport (preferences : Preferences) (kind : Kind) (n : Nat) (verdict : Verdict)
    (outcome : Option Outcome) : String :=
  let oracle := outcome.toList.map fun outcome => ("oracle", outcome.toJson)
  (Report.Json.ofMembers
    ([("command", .string (Command.checkWord kind)), ("n", .number n),
      ("verdict", verdict.toJson (!preferences.quiet))] ++ oracle)).text

/-- The report in lines: the trace, the verdict and the outcome of the direct run. -/
def lineReport (preferences : Preferences) (verdict : Verdict) (outcome : Option Outcome) :
    String :=
  let trace := if preferences.quiet then [] else verdict.halt.trace.lines
  let oracle := outcome.toList.map fun outcome => "Direct run: " ++ outcome.text
  "\n".intercalate (trace ++ [verdict.text] ++ oracle)

/-- The report on a verdict. -/
def report (preferences : Preferences) (kind : Kind) (n : Nat) (verdict : Verdict)
    (outcome : Option Outcome) : String :=
  if preferences.json then jsonReport preferences kind n verdict outcome
  else lineReport preferences verdict outcome

/-- The number of bytes in the longest report.  One in JSON grows as it is written; lines are joined at
once. -/
def maxReport (preferences : Preferences) : Nat :=
  if preferences.json then Room.grown 1 else Room.atOnce 1

/-- The report on a unary number.  `none` if the fuel is used up. -/
def check (session : Session) (fuel : Nat) (kind : Kind) (n : Nat) :
    Option (Except SessionError String) :=
  let g := session.grammar kind
  match g.checkNumber session.preferences.maxSteps fuel n with
  | none => none
  | some (.error error) => some (.error (.check error))
  | some (.ok verdict) =>
    match session.crossCheck g fuel n verdict with
    | none => none
    | some (.error error) => some (.error error)
    | some (.ok outcome) =>
      let text := report session.preferences kind n verdict outcome
      if text.utf8ByteSize ≤ maxReport session.preferences then some (.ok text)
      else some (.error (.check (.fault .noRoom)))

/-! ## 3. Answering lines -/

/-- How a session ends. -/
inductive Ending where
  /-- The session was asked to end. -/
  | quit
  /-- The program breaks off because of a fault. -/
  | abort
  deriving DecidableEq

/-- The answer to a line.  What the runtime says about a fault is no part of it, nor are lines of a
log. -/
structure Reply where
  stdout : String
  stderr : String
  /-- Whether the session ends with this line, and how. -/
  ending : Option Ending
  deriving DecidableEq

namespace Reply

/-- A line on the standard output. -/
def out (line : String) : Reply := ⟨line ++ "\n", "", none⟩

/-- A line on the standard error. -/
def err (line : String) : Reply := ⟨"", line ++ "\n", none⟩

/-- Nothing but the end of the session. -/
def goodbye : Reply := ⟨"", "", some .quit⟩

/-- Nothing but the end of the session by a fault: that there was one is not said by the program. -/
def brokenOff : Reply := ⟨"", "", some .abort⟩

end Reply

/-- The answer to one line.  A line that is no command, or a check without a report, is answered by
a message and does not end the session.  `none` if the fuel is used up. -/
def reply? (session : Session) (fuel : Nat) (line : String) : Option Reply :=
  match Command.parse line with
  | .error error => some (.err ("Warning: " ++ error.message))
  | .ok .quit => some .goodbye
  | .ok (.check kind n) =>
    match session.check fuel kind n with
    | none => none
    | some (.ok report) => some (.out report)
    | some (.error (.check (.fault _))) => some .brokenOff
    | some (.error error) => some (.err ("Error: " ++ error.message))

/-- What a program has written when it ends, and its exit code.  A program that is asked to be verbose
writes a log to the standard error too, every line with the time of day; that is left out here. -/
structure Transcript where
  stdout : String
  stderr : String
  exit : Nat
  deriving DecidableEq

namespace Transcript

/-- The transcript of a program that has not written anything yet. -/
def empty : Transcript := ⟨"", "", 0⟩

/-- The transcript with the texts of a reply added. -/
def add (transcript : Transcript) (reply : Reply) : Transcript where
  stdout := transcript.stdout ++ reply.stdout
  stderr := transcript.stderr ++ reply.stderr
  exit := if reply.ending = some .abort then 101 else transcript.exit

end Transcript

/-- What is shown in place of a line that is no text. -/
def unreadableLine : String :=
  "Error: Failed to read from stdin: stream did not contain valid UTF-8"

/-- Answers lines until one of them ends the session or is no text. -/
def answerLines (session : Session) (fuel : Nat) :
    List (Option String) → Transcript → Option Transcript
  | [], transcript => some transcript
  | none :: _, transcript => some (transcript.add (.err unreadableLine))
  | some line :: lines, transcript =>
    match session.reply? fuel line with
    | none => none
    | some reply =>
      if reply.ending.isSome then some (transcript.add reply)
      else answerLines session fuel lines (transcript.add reply)

/-! ## 4. Lines of an input -/

/-- The pieces of an input that line feeds end; the last one need not be ended.  `piece` holds what
the piece has had before these bytes, the latest byte first. -/
def piecesFrom (piece : List UInt8) : List UInt8 → List (List UInt8)
  | [] => if piece.isEmpty then [] else [piece.reverse]
  | byte :: bytes =>
    if byte = 10 then (byte :: piece).reverse :: piecesFrom [] bytes
    else piecesFrom (byte :: piece) bytes

/-- A piece without the line feed at its end, and without a carriage return before that. -/
def withoutEnd (piece : List UInt8) : List UInt8 :=
  match piece.reverse with
  | 10 :: 13 :: rest => rest.reverse
  | 10 :: rest => rest.reverse
  | _ => piece

/-- The text of a piece, if it is one in UTF-8. -/
def lineOfPiece (piece : List UInt8) : Option String :=
  String.fromUTF8? ⟨(withoutEnd piece).toArray⟩

/-- The lines of an input; one that is no text in UTF-8 is `none`. -/
def inputLines (input : ByteArray) : List (Option String) :=
  (piecesFrom [] input.toList).map lineOfPiece

end Session

end TapeGrammar
