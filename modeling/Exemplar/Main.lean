import Exemplar.CommandLine
import Exemplar.CommandLine.Arguments

/-!
# The program

Runs the command on the files of the computer. Only this module does input and output; what is
read, in which order, and what is written are decided by `CommandLine.run`.
-/

namespace Exemplar

/-- A failure of the system in the words of the command. The system gives its number for a failure
with either sign. -/
def FileError.ofSystem (error : IO.Error) : FileError :=
  match error with
  | .noFileOrDirectory .. => .notFound
  | .alreadyExists .. => .alreadyExists
  | .inappropriateType _ code _ =>
    if min code (0 - code) = 20 then .notDirectory else .isDirectory
  | .invalidArgument _ code _ =>
    if min code (0 - code) = 36 then .nameTooLong else .other (toString error)
  | error => .other (toString error)

def attempt {α : Type} (action : IO α) : IO (Except FileError α) := do
  match ← action.toBaseIO with
  | .ok a => return .ok a
  | .error error => return .error (FileError.ofSystem error)

def FileKind.ofSystem : IO.FS.FileType → FileKind
  | .dir => .directory
  | _ => .file

def systemHost : Host IO where
  standardInput := do
    let stream ← IO.getStdin
    let mut bytes := ByteArray.empty
    repeat
      let more ← stream.read 65536
      if more.isEmpty then break
      bytes := bytes ++ more
    return ⟨bytes.toList, .finished⟩
  kind? path := do
    match ← attempt (do (← IO.FS.realPath path).metadata) with
    | .ok data => return some (FileKind.ofSystem data.type)
    | .error _ => return none
  readFile path := do
    match ← attempt (IO.FS.readBinFile path) with
    | .ok bytes => return .ok ⟨bytes.toList, .finished⟩
    | .error .isDirectory => return .ok ⟨[], .broken FileError.isDirectory.message⟩
    | .error error => return .error error
  entries path := do
    match ← attempt (do (← IO.FS.realPath path).readDir) with
    | .error error => return .error error
    | .ok found =>
      let named ← found.toList.mapM fun entry => do
        match ← attempt entry.path.metadata with
        | .ok data => return (entry.fileName, FileKind.ofSystem data.type)
        | .error _ => return (entry.fileName, FileKind.file)
      return .ok named
  createDirectory path := attempt (IO.FS.createDir path)
  writeFile path content := attempt (IO.FS.writeFile path content)

end Exemplar

def main (arguments : List String) : IO UInt32 := do
  let host := Exemplar.systemHost
  let outcome ← Exemplar.CommandLine.run (.usual host) host arguments
  for event in outcome.log do
    IO.eprintln ((if event.isWarning then "WARN " else "DEBUG ") ++ event.message)
  IO.print outcome.output
  if let some complaint := outcome.complaint? then
    IO.eprintln complaint
  return outcome.exitCode.toUInt32
