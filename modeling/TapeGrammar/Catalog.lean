import TapeGrammar.LoadError

/-!
# The catalog of machines

Machines that are available without any file.  A catalog entry is the text of a descriptor; the
automaton is read from it like from any other descriptor.

The entries decide whether a unary number is prime.  The machine keeps a growing PREFIX of the cells
as a divisor, crosses out the other cells in rounds of its length, and looks at how far the last
round went once no cell is left.
-/

namespace TapeGrammar.Catalog

/-! ## 1. Entries -/

/-- A machine that is known by name; one name may stand for a machine of either kind. -/
structure Entry where
  name : String
  kind : Kind
  /-- The lines of the descriptor. -/
  lines : List String

/-- The text of a descriptor: every line is ended by a line feed. -/
def Entry.text (entry : Entry) : String := String.join (entry.lines.map (· ++ "\n"))

/-- The name of the machines that decide primality. -/
def primality : String := "primality"

/-- A Turing machine that accepts the unary notation of the prime numbers. -/
def primalityUnbounded : List String :=
  ["1",
    "1 d u x B",
    "B",
    "q0",
    "accept",
    "",
    "# mark the first two cells as the divisor prefix (d = 2)",
    "q0 1 q1 d right",
    "q1 1 seek d right",
    "",
    "# cross the next unmarked cell",
    "seek d seek d right",
    "seek u seek u right",
    "seek x seek x right",
    "seek 1 back x left",
    "seek B check B left",
    "",
    "# return to the left boundary",
    "back x back x left",
    "back u back u left",
    "back d back d left",
    "back B use B right",
    "",
    "# count the crossed cell on the prefix, restarting a full round",
    "use u use u right",
    "use d seek u right",
    "use x reset x left",
    "reset u reset d left",
    "reset B use B right",
    "",
    "# no cells left: inspect the prefix",
    "check x check x left",
    "check u check u left",
    "check d check d left",
    "check B verify B right",
    "",
    "# all unused: prefix covers the word, prime; all used: divisor found",
    "verify d accept d right",
    "verify u tally u right",
    "tally u tally u right",
    "tally d rewind d left",
    "tally x reject x right",
    "",
    "# partial round: clear marks and grow the prefix by one cell",
    "rewind u rewind u left",
    "rewind B spread B right",
    "spread u spread d right",
    "spread d spread d right",
    "spread x spread 1 right",
    "spread B settle B left",
    "settle 1 settle 1 left",
    "settle d extend d right",
    "extend 1 seek d right"]

/-- A bounded automaton that accepts the unary notation of the prime numbers. -/
def primalityBounded : List String :=
  ["@ 1 $",
    "@ 1 d u x $",
    "@ $",
    "start",
    "accept",
    "",
    "# step off the left marker onto the first cell",
    "start @ q0 @ right",
    "",
    "# mark the first two cells as the divisor prefix (d = 2)",
    "q0 1 q1 d right",
    "q1 1 seek d right",
    "",
    "# cross the next unmarked cell",
    "seek d seek d right",
    "seek u seek u right",
    "seek x seek x right",
    "seek 1 back x left",
    "seek $ check $ left",
    "",
    "# return to the left boundary",
    "back x back x left",
    "back u back u left",
    "back d back d left",
    "back @ use @ right",
    "",
    "# count the crossed cell on the prefix, restarting a full round",
    "use u use u right",
    "use d seek u right",
    "use x reset x left",
    "reset u reset d left",
    "reset @ use @ right",
    "",
    "# no cells left: inspect the prefix",
    "check x check x left",
    "check u check u left",
    "check d check d left",
    "check @ verify @ right",
    "",
    "# all unused: prefix covers the word, prime; all used: divisor found",
    "verify d accept d right",
    "verify u tally u right",
    "tally u tally u right",
    "tally d rewind d left",
    "tally x reject x right",
    "",
    "# partial round: clear marks and grow the prefix by one cell",
    "rewind u rewind u left",
    "rewind @ spread @ right",
    "spread u spread d right",
    "spread d spread d right",
    "spread x spread 1 right",
    "spread $ settle $ left",
    "settle 1 settle 1 left",
    "settle d extend d right",
    "extend 1 seek d right"]

/-- All entries. -/
def entries : List Entry :=
  [⟨primality, .unbounded, primalityUnbounded⟩, ⟨primality, .bounded, primalityBounded⟩]

/-! ## 2. Look-up -/

/-- The entries together with their automata. -/
def machines : List (Entry × Automaton) :=
  entries.filterMap fun entry =>
    match Descriptor.parse entry.text entry.kind with
    | .ok automaton => some (entry, automaton)
    | .error _ => none

/-- The names of the entries, each once. -/
def names : List String := (machines.map fun (entry, _) => entry.name).eraseReps

/-- The first of these machines that bears a name and is of a kind. -/
def findIn (machines : List (Entry × Automaton)) (name : String) (kind : Kind) :
    Except LoadError (Entry × Automaton) :=
  match machines.find? fun (entry, automaton) => entry.name = name && automaton.kind = kind with
  | some found => .ok found
  | none => .error (.notInCatalog name kind)

/-- The entry of a name and a kind, with its automaton. -/
def find (name : String) (kind : Kind) : Except LoadError (Entry × Automaton) :=
  findIn machines name kind

/-- The automaton of a name and a kind. -/
def automaton (name : String) (kind : Kind) : Except LoadError Automaton := do
  let (_, automaton) ← find name kind
  return automaton

end TapeGrammar.Catalog
