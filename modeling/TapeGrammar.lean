import TapeGrammar.Main
import TapeGrammar.Storage.Tree
import TapeGrammar.Proofs.Rewriting
import TapeGrammar.Proofs.Run
import TapeGrammar.Proofs.Table
import TapeGrammar.Proofs.Fuel
import TapeGrammar.Proofs.LockStep
import TapeGrammar.Proofs.Confined
import TapeGrammar.Proofs.Room
import TapeGrammar.Proofs.Steps
import TapeGrammar.Proofs.Window
import TapeGrammar.Proofs.Agreement
import TapeGrammar.Proofs.Phases
import TapeGrammar.Proofs.Replay
import TapeGrammar.Proofs.Trace
import TapeGrammar.Proofs.Unrestricted.Encoding
import TapeGrammar.Proofs.Unrestricted.Recovery
import TapeGrammar.Proofs.Unrestricted.Mirror
import TapeGrammar.Proofs.Unrestricted.Check
import TapeGrammar.Proofs.Unrestricted.PaddedRun
import TapeGrammar.Proofs.ContextSensitive.Productions
import TapeGrammar.Proofs.ContextSensitive.Encoding
import TapeGrammar.Proofs.ContextSensitive.Windowed
import TapeGrammar.Proofs.ContextSensitive.Recovery
import TapeGrammar.Proofs.ContextSensitive.Mirror
import TapeGrammar.Proofs.ContextSensitive.Check
import TapeGrammar.Proofs.ContextSensitive.Language
import TapeGrammar.Proofs.Derivability
import TapeGrammar.Proofs.Descriptor.Readers
import TapeGrammar.Proofs.Descriptor.Lines
import TapeGrammar.Proofs.Descriptor.HeaderLines
import TapeGrammar.Proofs.Descriptor.Sections
import TapeGrammar.Proofs.Descriptor.Parse
import TapeGrammar.Proofs.Descriptor.Writing
import TapeGrammar.Proofs.Trail
import TapeGrammar.Proofs.Primality.Program
import TapeGrammar.Proofs.Primality.Decision
import TapeGrammar.Proofs.Primality.Machines
import TapeGrammar.Proofs.Primality.Check
import TapeGrammar.Proofs.Primality.Twins
import TapeGrammar.Proofs.Weight
import TapeGrammar.Proofs.Faultless
import TapeGrammar.Proofs.Cleanup
import TapeGrammar.Proofs.Planning
import TapeGrammar.Proofs.Headroom
import TapeGrammar.Proofs.LimitedCheck
import TapeGrammar.Proofs.Unambiguous
import TapeGrammar.Proofs.Spelling
import TapeGrammar.Proofs.Generation
import TapeGrammar.Proofs.Counting
import TapeGrammar.Proofs.Scan
import TapeGrammar.Proofs.Exactness
import TapeGrammar.Proofs.Limits
import TapeGrammar.Proofs.Sizes
import TapeGrammar.Proofs.Enclosure
import TapeGrammar.Proofs.IntegerTape
import TapeGrammar.Proofs.Reuse
import TapeGrammar.Proofs.Leftmost
import TapeGrammar.Proofs.Insertion
import TapeGrammar.Proofs.Session.Lines
import TapeGrammar.Proofs.Session.Script
