import Exemplar.FileTree

/-!
# What a command needs from its surroundings

A command reads its standard input, looks at files and directories, and writes one file. It does
so through a `Host`, so that one and the same command runs on a tree of files and on a computer.
Its exit code and what it prints are part of its result.
-/

namespace Exemplar

/-- Whether something is a directory or another file. -/
inductive FileKind where
  | file
  | directory
  deriving DecidableEq

/-- The operations that a command is given. -/
structure Host (m : Type → Type) where
  /-- All of the standard input. -/
  standardInput : m Input
  /-- What a path leads to, if anything. -/
  kind? : String → m (Option FileKind)
  /-- What can be read from a file. Directories open and then fail to be read. -/
  readFile : String → m (Except FileError Input)
  /-- The names in a directory, each with what it names. -/
  entries : String → m (Except FileError (List (String × FileKind)))
  /-- Makes one directory. -/
  createDirectory : String → m (Except FileError Unit)
  /-- Writes a file, in place of what it held before. -/
  writeFile : String → String → m (Except FileError Unit)

def FileNode.kind (node : FileNode) : FileKind :=
  if node.isDirectory then .directory else .file

/-- What can be read from what stands at a place. -/
def FileNode.opened : FileNode → Except FileError Input
  | file content => .ok content
  | locked error => .error error
  | directory | unlisted _ => .ok ⟨[], .broken FileError.isDirectory.message⟩

namespace FileTree

/-- A host whose files are a tree. Only the last two operations change it. -/
def host (standardInput : Input) : Host (StateM FileTree) where
  standardInput := pure standardInput
  kind? path := do
    return ((← get).lookup path).toOption.map FileNode.kind
  readFile path := do
    return ((← get).lookup path).bind FileNode.opened
  entries path := do
    return ((← get).entries path).map (·.map fun (name, node) => (name, node.kind))
  createDirectory path := do
    match (← get).createDirectory path with
    | .ok tree => set tree; return .ok ()
    | .error error => return .error error
  writeFile path content := do
    match (← get).writeFile path content with
    | .ok tree => set tree; return .ok ()
    | .error error => return .error error

end FileTree

namespace Host

variable {m : Type → Type} [Monad m]

/-- Makes one directory. What is a directory already is no failure. -/
def ensureDirectory (host : Host m) (path : String) : m (Except FileError Unit) := do
  match ← host.createDirectory path with
  | .ok () => return .ok ()
  | .error error =>
    if error = .alreadyExists ∧ (← host.kind? path) = some .directory then return .ok ()
    else return .error error

/-- Makes a directory and those above it, going up at most `levels` times. The empty path is
where the command runs, so it is there. -/
def createDirectories (host : Host m) : (levels : Nat) → String → m (Except FileError Unit)
  | 0, _ => return .ok ()
  | levels + 1, path => do
    if path = "" then return .ok ()
    match ← host.ensureDirectory path with
    | .error .notFound =>
      match Path.parent? path with
      | none => return .error .notFound
      | some above =>
        match ← host.createDirectories levels above with
        | .error error => return .error error
        | .ok () => host.ensureDirectory path
    | outcome => return outcome

end Host

end Exemplar
