import Exemplar.Identifier

/-!
# File paths

Paths are texts whose parts are separated by slashes. Empty parts and parts that are a single
point say nothing, except that a path may begin with a slash or with a point. Nothing here looks
at a file system.
-/

namespace Exemplar.Path

def maxBytes : Nat := 4095

/-- No name in a directory has more bytes than this. -/
def maxNameBytes : Nat := 255

def rawParts (path : String) : List String :=
  (path.toList.splitOnP (· = '/')).map String.ofList

/-- A list of parts without those at its end that say nothing. -/
def trimParts (parts : List String) : List String :=
  (parts.reverse.dropWhile fun part => part = "" || part = ".").reverse

/-- The beginning of a path (empty if it begins with a slash) and its later parts, up to the last
one that says something. -/
def split (path : String) : String × List String :=
  match rawParts path with
  | [] => ("", [])
  | head :: parts => (head, trimParts parts)

/-- Whether a path leads nowhere but to the directory where it starts, and says so. -/
def isHere (path : String) : Bool :=
  split path = (".", [])

/-- The name of the file that a path leads to, if its last part is a name. -/
def fileName? (path : String) : Option String :=
  let (head, parts) := split path
  let last := parts.getLast?.getD head
  if last = "" ∨ last = "." ∨ last = ".." then none else some last

/-- A file name without what follows its last point; a point at the beginning is part of the
name. -/
def withoutExtension (name : String) : String :=
  let reversed := name.toList.reverse
  match reversed.dropWhile (· ≠ '.') with
  | [] | ['.'] => name
  | _ :: stem => String.ofList stem.reverse

/-- The path of the directory that holds what a path leads to. It is empty for a bare name, and
the root has none. -/
def parent? (path : String) : Option String :=
  let (head, parts) := split path
  match parts.reverse with
  | [] => if head = "" then none else some ""
  | _ :: before =>
    match head, trimParts before.reverse with
    | "", [] => some "/"
    | head, before => some ("/".intercalate (head :: before))

/-- The name of the type that a file describes: the identifier of its name without extension. -/
def typeName (initialisms : Initialisms) (path : String) : String :=
  Identifier.ofKey initialisms (((fileName? path).map withoutExtension).getD "")

end Exemplar.Path
