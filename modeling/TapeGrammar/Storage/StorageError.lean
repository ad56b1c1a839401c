/-!
# Storage errors

Why a file or a directory cannot be read or written, in the words of the system that holds it.
-/

namespace TapeGrammar

/-- The ways in which access to a file or a directory fails. -/
inductive StorageError where
  /-- Nothing is there under the path. -/
  | notFound
  /-- A part of the path that is not the last is a file, or a file is used as a directory. -/
  | notDirectory
  /-- A directory is used as a file. -/
  | isDirectory
  /-- A name of the path is longer than 255 bytes, or the path is longer than 4095. -/
  | nameTooLong
  /-- The path holds the character with the number 0. -/
  | nulInPath
  /-- The contents of the file are not a text in UTF-8. -/
  | notText
  /-- Any other failure, as the system reports it. -/
  | other (report : String)
  deriving DecidableEq

/-- The report of a storage error. -/
def StorageError.message : StorageError → String
  | .notFound => "No such file or directory (os error 2)"
  | .notDirectory => "Not a directory (os error 20)"
  | .isDirectory => "Is a directory (os error 21)"
  | .nameTooLong => "File name too long (os error 36)"
  | .nulInPath => "file name contained an unexpected NUL byte"
  | .notText => "stream did not contain valid UTF-8"
  | .other report => report

end TapeGrammar
