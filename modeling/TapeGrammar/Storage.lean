import TapeGrammar.LoadError
import TapeGrammar.Storage.Path

/-!
# Machines and grammars in files

What the library needs of the place where files are kept is an interface of five operations.  It is
a parameter here: a program passes the real files, a test a directory tree that is held in memory
(`TapeGrammar.Storage.Tree`).

Files that end in `.tm` describe Turing machines, files that end in `.lba` bounded automata.
-/

namespace TapeGrammar

/-- Access to files and directories, in a monad that tells what else may happen on the way. -/
structure Storage (m : Type → Type) where
  /-- The contents of a file. -/
  read : (path : String) → m (Except StorageError ByteArray)
  /-- Makes a file with these contents, or replaces those of an existing one. -/
  write : (path : String) → (contents : String) → m (Except StorageError Unit)
  /-- Whether there is a file or a directory under a path. -/
  pathExists : (path : String) → m Bool
  /-- Whether there is a directory under a path.  A path that cannot be resolved leads to none. -/
  isDirectory : (path : String) → m Bool
  /-- The names in a directory. -/
  list : (path : String) → m (Except StorageError (List String))

namespace Storage

variable {m : Type → Type} [Monad m]

/-- The text in a file. -/
def readText (storage : Storage m) (path : String) : m (Except StorageError String) := do
  match ← storage.read path with
  | .error error => return .error error
  | .ok bytes =>
    match String.fromUTF8? bytes with
    | some text => return .ok text
    | none => return .error .notText

/-- Loads a machine of the given kind. -/
def load (storage : Storage m) (path : String) (kind : Kind) : m (Except LoadError Automaton) := do
  match ← storage.readText path with
  | .error error => return .error (.unreadableFile path error)
  | .ok text => return (Descriptor.parse text kind).mapError .descriptor

/-- The kind of machine that the extension of a path stands for. -/
def kindOf? (path : String) : Option Kind := (Path.extension? path).bind Kind.ofExtension?

/-- Loads a machine of the kind that the extension says. -/
def loadByExtension (storage : Storage m) (path : String) : m (Except LoadError Automaton) := do
  match kindOf? path with
  | none => return .error (.unknownKind path)
  | some kind => storage.load path kind

/-- The paths of the descriptors among the names in a directory.  A name counts if its extension
says a kind and its path does not lead to a directory. -/
def descriptorPaths (storage : Storage m) (directory : String) (names : List String) :
    m (List String) :=
  (names.map (Path.join directory)).filterM fun path => do
    return !(← storage.isDirectory path) && (kindOf? path).isSome

/-- Loads one descriptor of a directory. -/
def loadEntry (storage : Storage m) (path : String) :
    m (Except LoadError (String × Automaton)) := do
  match ← storage.loadByExtension path with
  | .error error => return .error (.unloadable path error)
  | .ok automaton => return .ok (path, automaton)

/-- Loads every descriptor that lies directly in a directory, in the order of the names.  Other
files and the directories in it are passed over, and a broken descriptor does not hide the
others. -/
def loadDirectory (storage : Storage m) (directory : String) :
    m (List (Except LoadError (String × Automaton))) := do
  if !(← storage.pathExists directory) then
    return [.error (.noSuchDirectory directory)]
  match ← storage.list directory with
  | .error error => return [.error (.unreadableDirectory directory error)]
  | .ok names =>
    (← storage.descriptorPaths directory (names.mergeSort (· ≤ ·))).mapM storage.loadEntry

/-- Writes a file. -/
def save (storage : Storage m) (path contents : String) : m (Except LoadError Unit) := do
  match ← storage.write path contents with
  | .error error => return .error (.unwritableFile path error)
  | .ok () => return .ok ()

end Storage

end TapeGrammar
