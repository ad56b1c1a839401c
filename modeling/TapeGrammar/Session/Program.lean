import TapeGrammar.Catalog
import TapeGrammar.Session.Arguments
import TapeGrammar.Storage

/-!
# The program

A run of the program: it loads the two machines, compiles them, shows the sizes, writes the grammars
to files if it is asked to, and answers commands -- those of the command line if there are any, and
otherwise those of the standard input.

The exit code is 0; 1 if a machine cannot be loaded or a grammar not be written; 2 if the arguments
are refused; 101 if a check ends in a fault.

The log that is asked for with `--verbose` is not modelled: its lines bear the time of day.  Without
that switch only warnings are logged, and none is due: the machines of the catalog are well formed, and
no pattern that a derivation looks up has two right sides.  So the transcript holds all that the program
writes itself.
-/

namespace TapeGrammar.Session

variable {m : Type → Type} [Monad m]

/-- The machine in a file, or the one of the catalog. -/
def loadMachine (storage : Storage m) (path : Option String) (kind : Kind) :
    m (Except LoadError Automaton) :=
  match path with
  | some path => storage.load path kind
  | none => pure (Catalog.automaton Catalog.primality kind)

/-- The files that the grammars are written to, with their contents. -/
def listings (session : Session) : List (String × String) :=
  [("unrestricted.grammar", session.unrestricted.listing),
    ("context-sensitive.grammar", session.contextSensitive.listing)]

/-- Writes files into a directory, as far as that succeeds, and gives their paths. -/
def writeAll (storage : Storage m) (directory : String) :
    List (String × String) → m (Except LoadError (List String))
  | [] => pure (.ok [])
  | (name, contents) :: files => do
    let path := Storage.Path.join directory name
    match ← storage.save path contents with
    | .error error => return .error error
    | .ok () => return (← writeAll storage directory files).map (path :: ·)

/-- The transcript of a program that gives up. -/
def giveUp (transcript : Transcript) (error : LoadError) : Transcript :=
  { transcript.add (.err ("Error: " ++ error.message)) with exit := 1 }

/-- Answers the commands of the command line, or those of the input if there are none. -/
def answer (session : Session) (fuel : Nat) (commands : List String) (input : ByteArray)
    (transcript : Transcript) : Option Transcript :=
  session.answerLines fuel (if commands.isEmpty then inputLines input else commands.map some)
    transcript

/-- A run of the program with arguments that have been read.  `none` if the fuel is used up. -/
def run (storage : Storage m) (fuel : Nat) (arguments : Arguments) (input : ByteArray) :
    m (Option Transcript) := do
  match ← loadMachine storage arguments.turing .unbounded with
  | .error error => return some (giveUp .empty error)
  | .ok turing =>
    match ← loadMachine storage arguments.bounded .bounded with
    | .error error => return some (giveUp .empty error)
    | .ok bounded =>
      let session := Session.ofAutomata turing bounded arguments.preferences
      let greeted : Transcript :=
        if arguments.preferences.quiet || arguments.preferences.json then .empty
        else Transcript.empty.add (.out (session.greeting ++ "\n"))
      match arguments.dump with
      | none => return session.answer fuel arguments.commands input greeted
      | some directory =>
        match ← writeAll storage directory session.listings with
        | .error error => return some (giveUp greeted error)
        | .ok paths =>
          let written := paths.foldl (fun transcript path =>
            transcript.add (.err ("Wrote " ++ path))) greeted
          return session.answer fuel arguments.commands input written

/-- A run of the program. -/
def runProgram (storage : Storage m) (fuel : Nat) (arguments : List String) (input : ByteArray) :
    m (Option Transcript) :=
  match Arguments.parse arguments with
  | .error error => return some ⟨"", error.message ++ "\n", 2⟩
  | .ok arguments => run storage fuel arguments input

end TapeGrammar.Session
