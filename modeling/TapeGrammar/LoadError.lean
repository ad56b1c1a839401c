import TapeGrammar.Descriptor
import TapeGrammar.Storage.StorageError

/-!
# Loading errors

Why a machine cannot be loaded, or a grammar not be saved.  Besides the descriptor itself, the place
that it is to be loaded from can be at fault.
-/

namespace TapeGrammar

/-- Why a machine cannot be loaded or a grammar not be saved. -/
inductive LoadError where
  /-- The text does not describe a machine. -/
  | descriptor (cause : DescriptorError)
  /-- The catalog has no machine of this name and kind. -/
  | notInCatalog (name : String) (kind : Kind)
  | unreadableFile (path : String) (cause : StorageError)
  /-- The extension of a file does not say which kind of machine it describes. -/
  | unknownKind (path : String)
  | noSuchDirectory (path : String)
  | unreadableDirectory (path : String) (cause : StorageError)
  /-- A descriptor in a directory cannot be loaded. -/
  | unloadable (path : String) (cause : LoadError)
  | unwritableFile (path : String) (cause : StorageError)
  deriving DecidableEq

/-- The report of a loading error. -/
def LoadError.message : LoadError → String
  | .descriptor cause => cause.message
  | .notInCatalog name kind =>
    s!"Descriptor validation error: Machine '{name}' ({kind.extension}) not found"
  | .unreadableFile path cause => s!"File error: Failed to read file {path}: " ++ cause.message
  | .unknownKind path =>
    s!"File error: Cannot tell the machine kind of {path}, expected a .tm or .lba file"
  | .noSuchDirectory path => s!"File error: Directory {path} does not exist"
  | .unreadableDirectory path cause =>
    s!"File error: Failed to read directory {path}: " ++ cause.message
  | .unloadable path cause =>
    s!"File error: Failed to load descriptor from {path}: " ++ cause.message
  | .unwritableFile path cause => s!"File error: Failed to write {path}: " ++ cause.message

end TapeGrammar
