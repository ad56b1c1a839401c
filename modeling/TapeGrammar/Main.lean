import TapeGrammar.Session.Program

/-!
# The command line

The outer layer of the program: real files, the real standard input and the real standard output.
-/

namespace TapeGrammar

/-- A failure of the file system as a storage error. -/
def StorageError.ofSystem : IO.Error → StorageError
  | .noFileOrDirectory .. => .notFound
  | .inappropriateType _ code details =>
    if code = 20 then .notDirectory else if code = 21 then .isDirectory else .other details
  | error => .other (toString error)

/-- Runs an action on files. -/
def Storage.attempt {α : Type} (action : IO α) : IO (Except StorageError α) := do
  match ← action.toBaseIO with
  | .ok value => return .ok value
  | .error error => return .error (.ofSystem error)

/-- The files of the system that the program runs on. -/
def Storage.system : Storage IO where
  read path := Storage.attempt (IO.FS.readBinFile path)
  write path contents := Storage.attempt (IO.FS.writeFile path contents)
  pathExists path := do ((← IO.currentDir).join path).pathExists
  isDirectory path := do ((← IO.currentDir).join path).isDir
  list path := Storage.attempt do
    return (← ((← IO.currentDir).join path).readDir).toList.map fun entry => entry.fileName

/-- The number of rounds after which a run is given up for good. -/
def fuel : Nat := Nat.pow 2 62

end TapeGrammar

open TapeGrammar in
/-- Runs the program and hands on what it writes. -/
def main (arguments : List String) : IO UInt32 := do
  let input ← match Arguments.parse arguments with
    | .ok given =>
      if given.commands.isEmpty then (← IO.getStdin).readBinToEnd else pure ByteArray.empty
    | .error _ => pure ByteArray.empty
  match ← Session.runProgram Storage.system fuel arguments input with
  | some transcript =>
    (← IO.getStdout).putStr transcript.stdout
    (← IO.getStderr).putStr transcript.stderr
    return transcript.exit.toUInt32
  | none => return 1
