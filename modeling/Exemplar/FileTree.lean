import Exemplar.Cursor
import Exemplar.Path

/-!
# Files and directories

A tree of files and directories below a root, and what the basic operations on it do. A place is
the list of names on the way down from the root. Paths are texts that lead to places: absolute
ones start at the root, relative ones at the working directory. The directory above the root is
the root. Files hold bytes of any kind, and files and directories may refuse to be looked into.
-/

namespace Exemplar

/-- Why an operation on a file fails. -/
inductive FileError where
  | notFound
  | alreadyExists
  | notDirectory
  | isDirectory
  | nameTooLong
  /-- Any other reason, in the words of the system. -/
  | other (description : String)
  deriving DecidableEq

def FileError.message : FileError → String
  | notFound => "No such file or directory (os error 2)"
  | alreadyExists => "File exists (os error 17)"
  | notDirectory => "Not a directory (os error 20)"
  | isDirectory => "Is a directory (os error 21)"
  | nameTooLong => "File name too long (os error 36)"
  | other description => description

/-- The bytes of an input, and whether the stream ends after them. -/
structure Input where
  bytes : List UInt8
  ending : Ending
  deriving DecidableEq

def Input.ofText (text : String) : Input := ⟨text.toUTF8.toList, .finished⟩

/-- What stands at a place of a tree. -/
inductive FileNode where
  /-- A file, and what is read from it. -/
  | file (content : Input)
  /-- A file that cannot be opened. -/
  | locked (error : FileError)
  | directory
  /-- A directory whose names cannot be listed. -/
  | unlisted (error : FileError)
  deriving DecidableEq

def FileNode.isDirectory : FileNode → Bool
  | directory | unlisted _ => true
  | file _ | locked _ => false

/-- What stands below the root, each with its place, and where relative paths start. -/
structure FileTree where
  nodes : List (List String × FileNode)
  workingDirectory : List String
  deriving DecidableEq

namespace FileTree

/-- What stands at a place. The root is a directory. -/
def get? (tree : FileTree) (place : List String) : Option FileNode :=
  if place.isEmpty then some .directory
  else (tree.nodes.find? (·.1 = place)).map Prod.snd

def setNode (place : List String) (node : FileNode) :
    List (List String × FileNode) → List (List String × FileNode)
  | [] => [(place, node)]
  | entry :: rest =>
    if entry.1 = place then (place, node) :: rest else entry :: setNode place node rest

def put (tree : FileTree) (place : List String) (node : FileNode) : FileTree :=
  { tree with nodes := setNode place node tree.nodes }

def isDirectory (tree : FileTree) (place : List String) : Bool :=
  (tree.get? place).any FileNode.isDirectory

def startOf (tree : FileTree) (path : String) : List String :=
  if path.startsWith "/" then [] else tree.workingDirectory

def nodeIn (tree : FileTree) (place : List String) (name : String) :
    Except FileError (Option FileNode) :=
  if Path.maxNameBytes < name.utf8ByteSize then .error .nameTooLong
  else .ok (tree.get? (place ++ [name]))

/-- The place that further parts of a path lead to. Before each part there must be a directory. -/
def locateFrom (tree : FileTree) (place : List String) :
    List String → Except FileError (List String)
  | [] => .ok place
  | part :: parts =>
    if !tree.isDirectory place then .error .notDirectory
    else if part = "" ∨ part = "." then tree.locateFrom place parts
    else if part = ".." then tree.locateFrom place.dropLast parts
    else
      match tree.nodeIn place part with
      | .error error => .error error
      | .ok none => .error .notFound
      | .ok (some _) => tree.locateFrom (place ++ [part]) parts

/-- The parts of a path. The empty path leads nowhere. -/
def checkedParts (path : String) : Except FileError (List String) :=
  if path = "" then .error .notFound
  else if Path.maxBytes < path.utf8ByteSize then .error .nameTooLong
  else .ok (Path.rawParts path)

def locate (tree : FileTree) (path : String) : Except FileError (List String) := do
  tree.locateFrom (tree.startOf path) (← checkedParts path)

def lookup (tree : FileTree) (path : String) : Except FileError FileNode := do
  match tree.get? (← tree.locate path) with
  | some node => .ok node
  | none => .error .notFound

/-- The names in the directory that a path leads to, each with what it names. -/
def entries (tree : FileTree) (path : String) : Except FileError (List (String × FileNode)) := do
  let place ← tree.locate path
  match tree.get? place with
  | none => .error .notFound
  | some (.unlisted error) => .error error
  | some (.file _) | some (.locked _) => .error .notDirectory
  | some .directory =>
    return tree.nodes.filterMap fun (place', node) =>
      match place'.getLast? with
      | some name => if place' = place ++ [name] then some (name, node) else none
      | none => none

/-- Where a path ends that need not lead to anything yet. -/
inductive Destination where
  /-- At a directory that is there, since no name comes last. -/
  | directory
  /-- At a name in a directory; slashes may follow the name. -/
  | entry (place : List String) (name : String) (slashes : Bool)

/-- Where a path ends. All of it but the last name must lead to a directory. -/
def destination (tree : FileTree) (path : String) : Except FileError Destination := do
  let parts := (← checkedParts path).reverse
  match parts.dropWhile (· = "") with
  | [] => return .directory
  | last :: before =>
    let place ← tree.locateFrom (tree.startOf path) before.reverse
    if !tree.isDirectory place then .error .notDirectory
    else if last = "." ∨ last = ".." then return .directory
    else return .entry place last (parts.head? = some "")

def createDirectory (tree : FileTree) (path : String) : Except FileError FileTree := do
  match ← tree.destination path with
  | .directory => .error .alreadyExists
  | .entry place name _ =>
    match ← tree.nodeIn place name with
    | some _ => .error .alreadyExists
    | none => return tree.put (place ++ [name]) .directory

/-- Writes a file in a directory that exists; what a file there held before is gone. -/
def writeFile (tree : FileTree) (path content : String) : Except FileError FileTree := do
  match ← tree.destination path with
  | .directory | .entry _ _ true => .error .isDirectory
  | .entry place name false =>
    match ← tree.nodeIn place name with
    | some .directory | some (.unlisted _) => .error .isDirectory
    | some (.locked error) => .error error
    | some (.file _) | none => return tree.put (place ++ [name]) (.file (.ofText content))

/-- Adds the directories that further parts of a path lead through, where nothing stands yet. -/
def addDirectories (tree : FileTree) (place : List String) : List String → FileTree
  | [] => tree
  | part :: parts =>
    let place := place ++ [part]
    let tree := if (tree.get? place).isSome then tree else tree.put place .directory
    tree.addDirectories place parts

/-- The names in a path, for paths that only lead downwards. -/
def downwardParts (path : String) : List String :=
  (Path.rawParts path).filter fun part => part ≠ "" && part ≠ "."

/-- The tree that holds nothing but a working directory. -/
def start (workingDirectory : List String) : FileTree :=
  (⟨[], workingDirectory⟩ : FileTree).addDirectories [] workingDirectory

/-- Adds a directory and the directories above it. -/
def addDirectory (tree : FileTree) (path : String) : FileTree :=
  tree.addDirectories (tree.startOf path) (downwardParts path)

def addFile (tree : FileTree) (path : String) (content : Input) : FileTree :=
  let place := tree.startOf path
  let parts := downwardParts path
  (tree.addDirectories place parts.dropLast).put (place ++ parts) (.file content)

end FileTree

end Exemplar
