import TapeGrammar.Automaton.Defect
import TapeGrammar.Descriptor.Sections
import TapeGrammar.Text.Blank

/-!
# Descriptors

From the text of a descriptor to a well-formed automaton.  There are two ways to fail, and the first
excludes the second: the text can be MALFORMED -- not a descriptor at all, a boundary line that does
not fit the kind of machine, a transition function defined twice -- or the automaton that it
describes can be INCONSISTENT.
-/

namespace TapeGrammar

/-- Why a text does not describe a machine. -/
inductive DescriptorError where
  | malformed (error : Descriptor.SyntaxError)
  | inconsistent (defect : Defect)
  deriving DecidableEq

/-- The report of a text that does not describe a machine. -/
def DescriptorError.message : DescriptorError → String
  | .malformed error => "Descriptor parsing error: " ++ error.message
  | .inconsistent defect => "Descriptor validation error: " ++ defect.message

namespace Descriptor

/-! ## 1. The meaning of the sections -/

namespace Sections

/-- What delimits the tape: one symbol is a blank, two are markers. -/
def boundary? (kind : Kind) (symbols : List String) : Option Boundary :=
  match kind, symbols with
  | .unbounded, [blank] => some (.blank blank)
  | .bounded, [left, right] => some (.markers left right)
  | _, _ => none

/-- Adds the entries in order to a transition function; gives back the first entry for a situation
that is defined already. -/
def addEntries (delta : Delta) :
    List (Reader.Located (Situation × Move)) → Except (Reader.Located (Situation × Move)) Delta
  | [] => .ok delta
  | entry :: entries =>
    if delta.contains entry.value.1 then .error entry
    else addEntries (delta.insert entry.value.1 entry.value.2) entries

/-- The automaton that the sections describe.  `text` is what they were read from; it is shown if
something is wrong with them. -/
def toAutomaton (sections : Sections) (text : List Char) (kind : Kind) :
    Except SyntaxError Automaton :=
  match boundary? kind sections.boundary.value with
  | none =>
    .error (.onStretch text sections.boundary.offset sections.boundary.width
      (.boundaryArity kind sections.boundary.value.length))
  | some boundary =>
    match addEntries ∅ sections.entries with
    | .error entry =>
      .error (.onStretch text entry.offset entry.width (.duplicateMove entry.value.1))
    | .ok delta => .ok {
        alphabet := .ofList sections.alphabet
        tapeAlphabet := .ofList sections.tapeAlphabet
        boundary
        start := sections.start
        finals := .ofList sections.finals
        delta }

end Sections

/-! ## 2. Reading a descriptor -/

/-- The automaton that a text describes, before it is asked whether its parts fit together.  White
space at both ends of the text is ignored. -/
def read (text : List Char) (kind : Kind) : Except SyntaxError Automaton :=
  match Sections.ofText (Text.trim text) with
  | .error error => .error error
  | .ok sections => sections.toAutomaton (Text.trim text) kind

/-- The well-formed automaton of the given kind that the characters of a text describe. -/
def parseChars (text : List Char) (kind : Kind) : Except DescriptorError Automaton :=
  match read text kind with
  | .error error => .error (.malformed error)
  | .ok automaton =>
    match automaton.defect? with
    | some defect => .error (.inconsistent defect)
    | none => .ok automaton

/-- The well-formed automaton of the given kind that a text describes. -/
def parse (text : String) (kind : Kind) : Except DescriptorError Automaton :=
  parseChars text.toList kind

end Descriptor

end TapeGrammar
