import TapeGrammar.Storage

/-!
# Directory trees

A directory tree held in memory, which answers as a file system does.  Paths are resolved component
by component; every component but the last has to be a directory, and a slash at the end asks for a
directory too.  There are no links.

Paths that begin with a slash start at the ROOT, all others at HOME, a directory in the root that no
name leads to.  So `..` leaves home, and nothing that lies there is found from outside.
-/

namespace TapeGrammar.Storage

/-- What lies at a node of the tree. -/
inductive Node where
  | directory
  | file (contents : ByteArray)

/-- A tree: the nodes besides the root and home, each with the names that lead to it from the
root. -/
structure Tree where
  nodes : List (List String × Node)

namespace Tree

/-! ## 1. Resolving paths -/

/-- The tree that consists of the root and home. -/
def empty : Tree := ⟨[]⟩

/-- The position of the root. -/
def root : List String := []

/-- The position of home.  Its name has no characters, so it is no component of a path. -/
def home : List String := [""]

/-- What lies at a position.  The root and home are directories. -/
def node? (tree : Tree) (position : List String) : Option Node :=
  if position = root || position = home then some .directory
  else (tree.nodes.find? fun (names, _) => names = position).map Prod.snd

/-- Puts a node at a position. -/
def put (tree : Tree) (position : List String) (node : Node) : Tree :=
  ⟨(position, node) :: tree.nodes.filter fun (names, _) => names ≠ position⟩

/-- Goes from a position through one component. -/
def stepInto (tree : Tree) (position : List String) (component : String) :
    Except StorageError (List String) :=
  match tree.node? position with
  | none => .error .notFound
  | some (.file _) => .error .notDirectory
  | some .directory =>
    if Path.isSelf component then .ok position
    else if component = ".." then .ok position.dropLast
    else if 255 < component.utf8ByteSize then .error .nameTooLong
    else if (tree.node? (position ++ [component])).isSome then .ok (position ++ [component])
    else .error .notFound

/-- Where a path starts. -/
def origin (path : String) : List String :=
  if path.toList.head? = some '/' then root else home

/-- The components of a path that can be resolved at all: it is not empty and does not exceed the
length that is allowed. -/
def components (path : String) : Except StorageError (List String) :=
  if path.toList.contains '\x00' then .error .nulInPath
  else if path = "" then .error .notFound
  else if 4095 < path.utf8ByteSize then .error .nameTooLong
  else .ok (Path.components path)

/-- What lies under a path. -/
def lookup (tree : Tree) (path : String) : Except StorageError (List String × Node) := do
  let position ← (← components path).foldlM tree.stepInto (origin path)
  match tree.node? position with
  | some node => return (position, node)
  | none => throw .notFound

/-! ## 2. Making a tree -/

/-- The tree with a directory at a position, and with all directories on the way. -/
def withDirectory (tree : Tree) (names : List String) : Tree :=
  (List.range (names.length + 1)).foldl (fun tree depth =>
    let position := names.take depth
    if (tree.node? position).isSome then tree else tree.put position .directory) tree

/-- The position of a path from home. -/
def position (path : String) : List String :=
  home ++ (Path.components path).filter fun component => !Path.isSelf component

/-- The tree with a directory under a path from home. -/
def addDirectory (tree : Tree) (path : String) : Tree := tree.withDirectory (position path)

/-- The tree with a file under a path from home, and with all directories on the way. -/
def addFile (tree : Tree) (path : String) (contents : ByteArray) : Tree :=
  (tree.withDirectory (position path).dropLast).put (position path) (.file contents)

/-! ## 3. The five operations -/

/-- The contents of a file. -/
def read (tree : Tree) (path : String) : Except StorageError ByteArray := do
  match ← tree.lookup path with
  | (_, .file contents) => return contents
  | (_, .directory) => throw .isDirectory

/-- The position of a file that is to be written: the directory that it is in has to exist, and no
directory may bear its name. -/
def target (tree : Tree) (path : String) : Except StorageError (List String) := do
  let names := ((← components path).reverse.dropWhile (· = "")).reverse
  let parent ← names.dropLast.foldlM tree.stepInto (origin path)
  match tree.node? parent, names.getLast? with
  | some .directory, some name =>
    if path.toList.getLast? = some '/' || name = "." || name = ".." then throw .isDirectory
    else if 255 < name.utf8ByteSize then throw .nameTooLong
    else match tree.node? (parent ++ [name]) with
      | some .directory => throw .isDirectory
      | _ => return parent ++ [name]
  | some .directory, none => throw .isDirectory
  | _, _ => throw .notDirectory

/-- The tree with a file of these contents. -/
def write (tree : Tree) (path contents : String) : Except StorageError Tree := do
  return tree.put (← tree.target path) (.file contents.toUTF8)

/-- Whether there is something under a path. -/
def pathExists (tree : Tree) (path : String) : Bool :=
  match tree.lookup path with
  | .ok _ => true
  | .error _ => false

/-- Whether there is a directory under a path. -/
def isDirectory (tree : Tree) (path : String) : Bool :=
  match tree.lookup path with
  | .ok (_, .directory) => true
  | _ => false

/-- The names in a directory. -/
def list (tree : Tree) (path : String) : Except StorageError (List String) := do
  match ← tree.lookup path with
  | (_, .file _) => throw .notDirectory
  | (position, .directory) =>
    return tree.nodes.filterMap fun (names, _) =>
      if names.dropLast = position then names.getLast? else none

/-- The tree as a place to keep files in. -/
def storage : Storage (StateM Tree) where
  read path := return (← get).read path
  write path contents := do
    match (← get).write path contents with
    | .error error => return .error error
    | .ok tree =>
      set tree
      return .ok ()
  pathExists path := return (← get).pathExists path
  isDirectory path := return (← get).isDirectory path
  list path := return (← get).list path

end Tree

end TapeGrammar.Storage
