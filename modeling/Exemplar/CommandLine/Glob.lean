import Exemplar.CommandLine.Host
import Exemplar.CommandLine.Options
import Exemplar.CommandLine.Pattern

/-!
# Files that match a pattern

A pattern of a path is matched part by part, from directory to directory. Parts without wildcards
are looked up without reading the directory. Matches come in the order of a walk that takes the
names of each directory alphabetically; a directory comes before what is in it. A directory that
cannot be read is a complaint among the matches.
-/

namespace Exemplar.Glob

/-- Something the walk has come to. -/
structure Found where
  path : String
  isDirectory : Bool

/-- A step of the walk: something found, or a complaint. -/
abbrev Finding := Except String Found

/-- A pattern, cut into parts. -/
structure PathPattern where
  /-- The directory where the walk starts. -/
  start : String
  parts : List (List PatternItem)
  /-- Whether only directories match. -/
  directoriesOnly : Bool

def parseParts : List String → Except PatternError (List (List PatternItem))
  | [] => .ok []
  | part :: parts => do
    let items ← Pattern.parse part
    let rest ← parseParts parts
    return items :: rest

/-- Reads a pattern of paths. The pattern as a whole is checked first and each part after that. -/
def parse (pattern : String) : Except PatternError PathPattern := do
  let _ ← Pattern.parse pattern
  let absolute := pattern.startsWith "/"
  let raw := if absolute then (Path.rawParts pattern).tail else Path.rawParts pattern
  let directoriesOnly := raw.getLast? = some ""
  let parts ← parseParts (if directoriesOnly then raw.dropLast else raw)
  return ⟨if absolute then "/" else ".", parts, directoriesOnly⟩

def join (directory name : String) : String :=
  if directory = "" ∨ directory.endsWith "/" then directory ++ name
  else directory ++ "/" ++ name

/-- The path of a name in a directory of the walk. The directory where the walk of a relative
pattern starts is not mentioned. -/
def child (directory name : String) : String :=
  if Path.isHere directory then name else join directory name

/-- What names `.` and `..` a pattern matches. Only a pattern that begins with a point can. -/
def dotNames (items : List PatternItem) : List String :=
  match items with
  | .char '.' :: _ => ["..", "."].filter fun name => PatternItem.matchAll items name.toList
  | _ => []

/-- The complaint about a directory that cannot be read. -/
def unreadable (directory : String) (error : FileError) : String :=
  "attempting to read `" ++ directory ++ "` resulted in an error: " ++ error.message

variable {m : Type → Type} [Monad m]

/-- A way to go on with the remaining parts below something found. -/
abbrev Continuation (m : Type → Type) :=
  List (List PatternItem) → Found → m (List Finding)

/-- What matches when the last part matched is `found`, and what follows otherwise. -/
def proceed (directoriesOnly : Bool) (goOn : Continuation m) (rest : List (List PatternItem))
    (found : Found) : m (List Finding) :=
  if !rest.isEmpty then goOn rest found
  else pure (if directoriesOnly && !found.isDirectory then [] else [.ok found])

/-- The matches at and below an entry of a directory whose name is to match the first part. -/
def matchName (directoriesOnly : Bool) (goOn : Continuation m) (name : String) (found : Found) :
    List (List PatternItem) → m (List Finding)
  | [] => pure []
  | items :: rest =>
    if PatternItem.matchAll items name.toList then proceed directoriesOnly goOn rest found
    else pure []

/-- The matches at and below an entry of a directory. Two stars match a directory itself, and
everything in it is looked at again; several such parts in a row are one. -/
def visit (directoriesOnly : Bool) (goOn : Continuation m) (parts : List (List PatternItem))
    (name : String) (found : Found) : m (List Finding) := do
  match parts with
  | [] => return []
  | items :: _ =>
    if Pattern.isRecursive items then
      let rest := parts.dropWhile Pattern.isRecursive
      let here ←
        if rest.isEmpty then pure (if found.isDirectory then [.ok found] else [])
        else matchName directoriesOnly goOn name found rest
      let below ← if found.isDirectory then goOn (items :: rest) found else pure []
      return here ++ below
    else matchName directoriesOnly goOn name found parts

def below (host : Host m) (directoriesOnly : Bool) (goOn : Continuation m) :
    Continuation m
  | [], _ => pure []
  | items :: rest, found => do
    match Pattern.literal? items with
    | some chars =>
      let name := String.ofList chars
      let path := child found.path name
      let kind ← host.kind? path
      let present := if name = "." ∨ name = ".." then found.isDirectory else kind.isSome
      if present then
        proceed directoriesOnly goOn rest ⟨path, kind = some .directory⟩
      else return []
    | none =>
      if !found.isDirectory then return []
      match ← host.entries found.path with
      | .error error => return [.error (unreadable found.path error)]
      | .ok entries =>
        let dots ← (dotNames items).mapM fun name =>
          proceed directoriesOnly goOn rest ⟨join found.path name, true⟩
        let sorted := entries.mergeSort fun a b => decide (a.1 ≤ b.1)
        let matched ← sorted.mapM fun (name, kind) =>
          visit directoriesOnly goOn (items :: rest) name
            ⟨child found.path name, kind = .directory⟩
        return dots.flatten ++ matched.flatten

/-- The matches of a walk of at most `steps` steps. -/
def walk (host : Host m) (directoriesOnly : Bool) : Nat → Continuation m
  | 0 => fun _ _ => pure []
  | steps + 1 => below host directoriesOnly (walk host directoriesOnly steps)

/-- What a walk for a pattern comes to, in order. A step of the walk finishes a part of the pattern
or goes down into a directory, and then the path grows. -/
def expand (host : Host m) (pattern : PathPattern) : m (List (Except String String)) := do
  let findings ← walk host pattern.directoriesOnly (pattern.parts.length + Path.maxBytes)
    pattern.parts ⟨pattern.start, true⟩
  return findings.map (·.map Found.path)

def search (host : Host m) (text : String) : m CommandLine.Matches :=
  match parse text with
  | .error error => return .error error.message
  | .ok pattern => .ok <$> expand host pattern

end Exemplar.Glob
