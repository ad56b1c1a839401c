import TapeGrammar.Session

/-!
# Command-line arguments

The arguments are long options (`--max-steps 10`, `--max-steps=10`), short options, which may be
written together (`-qv`), and the values of options.  The value of a short option may follow it
directly or after an equals sign (`-cq`, `-c=q`).  A value in an argument of its own may not begin
with a hyphen, unless it is the hyphen alone.  There are no other arguments, and only commands may
be given more than once.
-/

namespace TapeGrammar

/-! ## 1. Options -/

/-- The switches. -/
inductive Switch where
  | oracle
  | json
  | quiet
  | verbose
  deriving DecidableEq

/-- The options that take a value. -/
inductive Setting where
  | turing
  | bounded
  | dump
  | maxSteps
  | command
  deriving DecidableEq

/-- Something that can be named on the command line. -/
inductive ProgramOption where
  | switch (which : Switch)
  | setting (which : Setting)
  deriving DecidableEq

namespace ProgramOption

/-- The option with a long name. -/
def ofLong? (name : String) : Option ProgramOption :=
  match name with
  | "oracle" => some (.switch .oracle)
  | "json" => some (.switch .json)
  | "quiet" => some (.switch .quiet)
  | "verbose" => some (.switch .verbose)
  | "tm" => some (.setting .turing)
  | "lba" => some (.setting .bounded)
  | "dump" => some (.setting .dump)
  | "max-steps" => some (.setting .maxSteps)
  | "command" => some (.setting .command)
  | _ => none

/-- The option with a short name. -/
def ofShort? (name : Char) : Option ProgramOption :=
  match name with
  | 'q' => some (.switch .quiet)
  | 'v' => some (.switch .verbose)
  | 'c' => some (.setting .command)
  | _ => none

end ProgramOption

/-- Why the arguments are refused. -/
inductive UsageError where
  /-- There is no such option, or an argument is no option. -/
  | unexpected (argument : String)
  /-- An option that can be given only once is repeated. -/
  | repeated (argument : String)
  /-- An option that takes a value has none. -/
  | missingValue (argument : String)
  /-- A switch has a value. -/
  | needlessValue (argument : String)
  /-- The value of an option cannot be used. -/
  | invalidValue (value : String)
  deriving DecidableEq

/-- The report of refused arguments. -/
def UsageError.message : UsageError → String
  | .unexpected argument => s!"error: unexpected argument '{argument}' found"
  | .repeated argument => s!"error: the argument '{argument}' cannot be used multiple times"
  | .missingValue argument => s!"error: a value is required for '{argument}' but none was supplied"
  | .needlessValue argument => s!"error: unexpected value for '{argument}' found"
  | .invalidValue value => s!"error: invalid value '{value}'"

/-! ## 2. Arguments -/

/-- What is asked for on the command line. -/
structure Arguments where
  /-- The descriptor of the Turing machine; the catalog has one if it is not given. -/
  turing : Option String
  /-- The descriptor of the bounded automaton; the catalog has one if it is not given. -/
  bounded : Option String
  /-- The directory into which both grammars are written. -/
  dump : Option String
  preferences : Preferences
  /-- Log what is done to the standard error.  The log bears the time of day and is no part of a
  transcript, so nothing else depends on this. -/
  verbose : Bool
  /-- The commands to run in place of those of the standard input. -/
  commands : List String
  deriving DecidableEq

namespace Arguments

/-- The arguments of an empty command line. -/
def none : Arguments where
  turing := Option.none
  bounded := Option.none
  dump := Option.none
  preferences := ⟨false, Option.none, false, false⟩
  verbose := false
  commands := []

/-- Turns a switch on. -/
def turnOn (given : Arguments) (name : String) : Switch → Except UsageError Arguments
  | .oracle =>
    if given.preferences.oracle then .error (.repeated name)
    else .ok { given with preferences.oracle := true }
  | .json =>
    if given.preferences.json then .error (.repeated name)
    else .ok { given with preferences.json := true }
  | .quiet =>
    if given.preferences.quiet then .error (.repeated name)
    else .ok { given with preferences.quiet := true }
  | .verbose =>
    if given.verbose then .error (.repeated name) else .ok { given with verbose := true }

/-- The value of an option that can be given only once, in place of the one it has so far. -/
def setOnce (name : String) {α : Type} (sofar : Option α) (value : Except UsageError α) :
    Except UsageError (Option α) :=
  if sofar.isSome then .error (.repeated name) else value.map some

/-- A path has to have at least one character. -/
def path (value : String) : Except UsageError String :=
  if value = "" then .error (.invalidValue value) else .ok value

/-- Gives an option its value. -/
def assign (given : Arguments) (name value : String) : Setting → Except UsageError Arguments
  | .turing => do return { given with turing := ← setOnce name given.turing (path value) }
  | .bounded => do return { given with bounded := ← setOnce name given.bounded (path value) }
  | .dump => do return { given with dump := ← setOnce name given.dump (path value) }
  | .maxSteps => do
    let number := match Text.size? value with
      | some n => .ok n
      | Option.none => .error (.invalidValue value)
    return { given with preferences.maxSteps := ← setOnce name given.preferences.maxSteps number }
  | .command => .ok { given with commands := given.commands ++ [value] }

/-! ## 3. Reading the command line -/

/-- Whether an argument begins an option: it begins with a hyphen and is not the hyphen alone. -/
def beginsOption (argument : String) : Bool :=
  argument.toList.head? = some '-' && argument ≠ "-"

/-- Reads short options that are written together.  The last of them may be waiting for a value in
the next argument. -/
def readShort (given : Arguments) (name : String) :
    List Char → Except UsageError (Arguments × Option Setting)
  | [] => .ok (given, Option.none)
  | c :: rest =>
    match ProgramOption.ofShort? c with
    | Option.none => .error (.unexpected name)
    | some (.switch switch) =>
      match given.turnOn name switch with
      | .error error => .error error
      | .ok given => readShort given name rest
    | some (.setting setting) =>
      match rest with
      | [] => .ok (given, some setting)
      | '=' :: value => (given.assign name (String.ofList value) setting).map (·, Option.none)
      | value => (given.assign name (String.ofList value) setting).map (·, Option.none)

/-- Reads a long option, whose value may follow an equals sign or be in the next argument. -/
def readLong (given : Arguments) (argument : String) (text : List Char) :
    Except UsageError (Arguments × Option Setting) :=
  let name := text.takeWhile (· ≠ '=')
  let value := (text.dropWhile (· ≠ '=')).tail?.map String.ofList
  match ProgramOption.ofLong? (String.ofList name), value with
  | Option.none, _ => .error (.unexpected argument)
  | some (.switch switch), Option.none => (given.turnOn argument switch).map (·, Option.none)
  | some (.switch _), some _ => .error (.needlessValue argument)
  | some (.setting setting), Option.none => .ok (given, some setting)
  | some (.setting setting), some value =>
    (given.assign argument value setting).map (·, Option.none)

/-- Reads one argument that begins an option. -/
def readOption (given : Arguments) (argument : String) :
    Except UsageError (Arguments × Option Setting) :=
  match argument.toList with
  | '-' :: '-' :: text => given.readLong argument text
  | _ :: text => given.readShort argument text
  | [] => .error (.unexpected argument)

/-- Reads the arguments in order.  `waiting` is an option that the last argument has left without
its value.  Behind the argument `--` nothing may follow. -/
def readFrom (given : Arguments) : (waiting : Option (String × Setting)) → List String →
    Except UsageError Arguments
  | Option.none, [] => .ok given
  | some (name, _), [] => .error (.missingValue name)
  | some (name, setting), argument :: rest =>
    if beginsOption argument then .error (.missingValue name)
    else
      match given.assign name argument setting with
      | .error error => .error error
      | .ok given => readFrom given Option.none rest
  | Option.none, argument :: rest =>
    if argument = "--" then
      match rest with
      | [] => .ok given
      | extra :: _ => .error (.unexpected extra)
    else if beginsOption argument then
      match given.readOption argument with
      | .error error => .error error
      | .ok (given, setting) => readFrom given (setting.map (argument, ·)) rest
    else .error (.unexpected argument)

/-- Reads a command line. -/
def parse (arguments : List String) : Except UsageError Arguments :=
  none.readFrom Option.none arguments

end Arguments

end TapeGrammar
