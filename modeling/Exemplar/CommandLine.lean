import Exemplar.CommandLine.Host
import Exemplar.CommandLine.Options
import Exemplar.Inference
import Exemplar.Path
import Exemplar.Rendering
import Exemplar.Shape.View

/-!
# The command

A run resolves its inputs, reads and describes every one of them, and only then writes what it
was asked for. So a run that fails on an input has not touched any file. How arguments are read and
patterns are matched is up to its conventions.
-/

namespace Exemplar.CommandLine

/-- An input of a run. -/
inductive Source where
  | standardInput
  | file (path : String)
  deriving DecidableEq

def Source.label : Source → String
  | standardInput => "<stdin>"
  | file path => path

/-- Why a run fails. -/
inductive Failure where
  | invalidPattern (pattern complaint : String)
  | unreadableMatch (complaint : String)
  | noMatch (pattern : String)
  | repeatedStandardInput
  | cannotOpen (source : Source) (error : FileError)
  | cannotInfer (source : Source) (error : InferenceError)
  | cannotCreate (directory : String) (error : FileError)
  | cannotWrite (path : String) (error : FileError)
  deriving DecidableEq

/-- The wording of a failure. The reason of a broken stream is told once more at the end. -/
def Failure.message : Failure → String
  | invalidPattern pattern complaint => s!"invalid glob pattern: {pattern}: {complaint}"
  | unreadableMatch complaint => s!"failed to read a glob match: {complaint}"
  | noMatch pattern => s!"glob pattern matched no files: {pattern}"
  | repeatedStandardInput => "stdin ('-') can only be given once"
  | cannotOpen source error => s!"failed to open {source.label}: {error.message}"
  | cannotInfer source error =>
    let cause :=
      match error with
      | .unreadable (.unreadable reason) => s!"{error.message}: {reason}"
      | _ => error.message
    s!"failed to infer a schema from {source.label}: {cause}"
  | cannotCreate directory error => s!"failed to create {directory}: {error.message}"
  | cannotWrite path error => s!"failed to write {path}: {error.message}"

/-- What a run leaves behind besides files. -/
structure Outcome where
  exitCode : UInt8
  /-- What is printed. -/
  output : String
  /-- What is said about a failure. -/
  complaint? : Option String
  /-- The events that are shown, in order. -/
  log : List Event

variable {m : Type → Type} [Monad m]

/-- Whether an argument is to be matched with paths, by the characters in it. -/
def isPattern (argument : String) : Bool :=
  argument.toList.any fun c => c = '*' || c = '?' || c = '['

/-- The inputs that a pattern stands for, by what was found for it: all of it are paths, and there
is at least one. -/
def Matches.sources (pattern : String) : Matches → Except Failure (List Source)
  | .error complaint => .error (.invalidPattern pattern complaint)
  | .ok found =>
    match found.mapM id with
    | .error complaint => .error (.unreadableMatch complaint)
    | .ok [] => .error (.noMatch pattern)
    | .ok paths => .ok (paths.map .file)

def resolve (conventions : Conventions m) (argument : String) :
    m (Except Failure (List Source)) := do
  if argument = "-" then return .ok [.standardInput]
  else if isPattern argument then return (← conventions.search argument).sources argument
  else return .ok [.file argument]

def resolveAll (conventions : Conventions m) : List String → m (Except Failure (List Source))
  | [] => return .ok []
  | argument :: rest => do
    match ← resolve conventions argument with
    | .error failure => return .error failure
    | .ok sources =>
      match ← resolveAll conventions rest with
      | .error failure => return .error failure
      | .ok others => return .ok (sources ++ others)

def Options.allInitialisms (options : Options) : Initialisms :=
  Initialisms.withExtra options.initialisms

/-- The name of the root of an input: the one given, or that of the file. -/
def Options.rootName (options : Options) (source : Source) : String :=
  match options.name?, source with
  | some name, _ => name
  | none, .file path => Path.typeName options.allInitialisms path
  | none, .standardInput => "JSONStruct"

def inferSource (host : Host m) (options : Options) (source : Source) :
    m (Reported (Except Failure (List Root))) := do
  let opened ←
    match source with
    | .standardInput => Except.ok <$> host.standardInput
    | .file path => host.readFile path
  match opened with
  | .error error => return pure (.error (.cannotOpen source error))
  | .ok input =>
    let inferred := infer options.allInitialisms (options.rootName source) input.bytes
      input.ending (options.maxDepth?.getD defaultLimit)
    return (·.mapError (.cannotInfer source)) <$> inferred

/-- Reads and describes inputs. All of them are looked at; the first failure counts. -/
def inferSources (host : Host m) (options : Options) :
    List Source → m (Reported (Except Failure (List Root)))
  | [] => return pure (.ok [])
  | source :: rest => do
    let here ← inferSource host options source
    let others ← inferSources host options rest
    return do
      match ← here, ← others with
      | .error failure, _ => return .error failure
      | .ok _, .error failure => return .error failure
      | .ok roots, .ok more => return .ok (roots ++ more)

def load (conventions : Conventions m) (host : Host m) (options : Options) :
    m (Reported (Except Failure (List Root))) := do
  match ← resolveAll conventions options.sources with
  | .error failure => return pure (.error failure)
  | .ok sources =>
    if 1 < sources.count .standardInput then return pure (.error .repeatedStandardInput)
    else
      let loaded ← inferSources host options sources
      return (·.map fun roots =>
        if options.sortFields then roots.map Root.sorted else roots) <$> loaded

def content (target : Target) (options : Options) (roots : List Root) : String :=
  match target with
  | .code =>
    render { valueComments := options.valueComments, deriveSerde := !options.noSerde } roots
  | .view => Root.viewText roots

/-- Writes a file, after the directories above it. -/
def writeOut (host : Host m) (path text : String) : m (Except Failure Unit) := do
  let directory := (Path.parent? path).getD ""
  match ← host.createDirectories (directory.length + 1) directory with
  | .error error => return .error (.cannotCreate directory error)
  | .ok () => return (← host.writeFile path text).mapError (.cannotWrite path)

/-- A text on lines of its own: with one line break at its end and no other blanks there. -/
def printed (text : String) : String :=
  String.ofList ((text.toList.reverse.dropWhile Char.isWhitespace).reverse ++ ['\n'])

def failed (log : List Event) (failure : Failure) : Outcome :=
  ⟨1, "", some ("Error: " ++ failure.message), log⟩

/-- Runs the command with options that have been accepted. -/
def execute (conventions : Conventions m) (host : Host m) (target : Target) (options : Options) :
    m Outcome := do
  let loaded ← load conventions host options
  let log := loaded.events.filter fun event => options.verbose || event.isWarning
  match loaded.result with
  | .error failure => return failed log failure
  | .ok roots =>
    let text := content target options roots
    match options.out? with
    | none => return ⟨0, printed text, none, log⟩
    | some path =>
      match ← writeOut host path text with
      | .error failure => return failed log failure
      | .ok () => return ⟨0, "", none, log⟩

/-- Runs the command. A text that is asked for is shown, and arguments that are rejected end the
run. -/
def run (conventions : Conventions m) (host : Host m) (arguments : List String) : m Outcome :=
  match conventions.parse arguments with
  | .ok (target, options) => execute conventions host target options
  | .error (.shown text) => return ⟨0, text, none, []⟩
  | .error (.rejected complaint) => return ⟨2, "", some complaint, []⟩

end Exemplar.CommandLine
