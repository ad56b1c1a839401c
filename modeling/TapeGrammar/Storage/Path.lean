/-!
# Paths

A path is a text; its components are separated by slashes.  Components without characters and the
component `.` mean the directory itself, the component `..` its parent.
-/

namespace TapeGrammar.Storage.Path

/-- The pieces of a text between the characters that satisfy `p`; there is one more piece than there
are such characters. -/
def splitChars (p : Char → Bool) : List Char → List (List Char)
  | [] => [[]]
  | c :: cs =>
    match splitChars p cs with
    | [] => if p c then [[], []] else [[c]]
    | piece :: pieces => if p c then [] :: piece :: pieces else (c :: piece) :: pieces

/-- The components of a path, those without characters included. -/
def components (path : String) : List String :=
  (splitChars (· = '/') path.toList).map String.ofList

/-- Whether a component means the directory itself. -/
def isSelf (component : String) : Bool := component = "" || component = "."

/-- The last component, slashes and `.` at the end aside; a path to a parent has none. -/
def fileName? (path : String) : Option String :=
  match ((components path).filter fun component => !isSelf component).getLast? with
  | some component => if component = ".." then none else some component
  | none => none

/-- What follows the last dot of the file name, unless that dot is the first character. -/
def extension? (path : String) : Option String := do
  let name ← fileName? path
  let reversed := name.toList.reverse
  if reversed.contains '.' && (reversed.dropWhile (· ≠ '.')).length ≠ 1 then
    some (String.ofList (reversed.takeWhile (· ≠ '.')).reverse)
  else none

/-- The path of a name in a directory. -/
def join (directory name : String) : String :=
  if directory = "" then name
  else if directory.toList.getLast? = some '/' then directory ++ name
  else directory ++ "/" ++ name

end TapeGrammar.Storage.Path
