import Exemplar.CommandLine.Glob
import Exemplar.Number.Literal

/-!
# Arguments of the command

The first argument that is no option names the command, and each command has options of its own.
An option is given at most once unless it collects words. Its value is the next argument or is
attached to it; an argument that begins with a dash and goes on is never a value. Arguments are
taken from left to right, and the first one that cannot be accepted decides.
-/

namespace Exemplar.CommandLine

/-- What can be asked for by an option. -/
inductive Choice where
  | input
  | name
  | initialism
  | maxDepth
  | sortFields
  | valueComments
  | noSerde
  | out
  | verbose
  | version
  | help
  deriving DecidableEq

def Choice.longName : Choice → String
  | input => "input"
  | name => "name"
  | initialism => "initialism"
  | maxDepth => "max-depth"
  | sortFields => "sort-fields"
  | valueComments => "value-comments"
  | noSerde => "no-serde"
  | out => "out"
  | verbose => "verbose"
  | version => "version"
  | help => "help"

def Choice.letter? : Choice → Option Char
  | input => some 'i'
  | out => some 'o'
  | verbose => some 'v'
  | version => some 'V'
  | help => some 'h'
  | _ => none

def Choice.takesValue : Choice → Bool
  | input | name | initialism | maxDepth | out => true
  | _ => false

/-- The options before the command (`none`) and after it. -/
def choices : Option Target → List Choice
  | none => [.verbose, .version, .help]
  | some .code => [.input, .name, .initialism, .maxDepth, .sortFields, .valueComments, .noSerde,
      .out, .verbose, .help]
  | some .view => [.input, .name, .initialism, .maxDepth, .sortFields, .out, .verbose, .help]

/-- Why arguments are rejected. -/
inductive ArgumentError where
  | missingCommand
  | unexpectedArgument (argument : String)
  | missingValue (choice : Choice)
  | unexpectedValue (choice : Choice)
  | repeated (choice : Choice)
  | invalidValue (choice : Choice) (value : String)
  deriving DecidableEq

def ArgumentError.message : ArgumentError → String
  | missingCommand => "a command is required"
  | unexpectedArgument argument => s!"unexpected argument '{argument}'"
  | missingValue choice => s!"a value is required for '--{choice.longName}'"
  | unexpectedValue choice => s!"no value is allowed for '--{choice.longName}'"
  | repeated choice => s!"'--{choice.longName}' cannot be used multiple times"
  | invalidValue choice value => s!"invalid value '{value}' for '--{choice.longName}'"

/-- Why the reading of arguments stops. -/
inductive Stop where
  | version
  | help
  | rejected (error : ArgumentError)
  deriving DecidableEq

def versionText : String := "jsonstruct 0.1.0\n"

def usageText : String := "\n".intercalate [
  "Usage: jsonstruct [-v] <rust|schema> [OPTIONS]",
  "",
  "  -i, --input <INPUT>...   paths, quoted glob patterns or '-' for stdin",
  "      --name <NAME>        top-level type name",
  "      --initialism <WORD>  extra word to upper-case as a unit; repeatable",
  "      --max-depth <N>      reject documents nested deeper than this",
  "      --sort-fields        sort fields alphabetically",
  "      --value-comments     show the first value of each field (rust)",
  "      --no-serde           plain structs without derives and attributes (rust)",
  "  -o, --out <OUT>          output file (stdout if omitted)",
  "  -v, --verbose            log every downgrade decision",
  "  -h, --help               print this help",
  "  -V, --version            print the version",
  ""]

/-- What comes of arguments that are not read to their end. -/
def Stop.halt : Stop → Halt
  | version => .shown versionText
  | help => .shown usageText
  | rejected error => .rejected ("error: " ++ error.message)

/-- A number without sign, or with a plus sign, that fits into a word of 64 bits. -/
def readWord? (text : String) : Option Nat :=
  let digits :=
    match text.toList with
    | '+' :: digits => digits
    | digits => digits
  let value := NumberLiteral.digitsValue digits
  if !digits.isEmpty && digits.all Char.isDigit && value < UInt64.size then some value else none

namespace Options

def switch (options : Options) (choice : Choice) : Except Stop Options :=
  match choice with
  | .version => .error .version
  | .help => .error .help
  | .verbose => once options.verbose { options with verbose := true }
  | .sortFields => once options.sortFields { options with sortFields := true }
  | .valueComments => once options.valueComments { options with valueComments := true }
  | .noSerde => once options.noSerde { options with noSerde := true }
  | .input | .name | .initialism | .maxDepth | .out => .error (.rejected (.missingValue choice))
where
  /-- Refuses an option that has been given before. -/
  once (given : Bool) (changed : Options) : Except Stop Options :=
    if given then .error (.rejected (.repeated choice)) else .ok changed

/-- Gives a value to an option. Options that collect words take any number of values. -/
def assign (options : Options) (choice : Choice) (value : String) : Except Stop Options :=
  match choice with
  | .input => .ok { options with inputs := options.inputs ++ [value] }
  | .initialism => .ok { options with initialisms := options.initialisms ++ [value] }
  | .name => once options.name?.isSome { options with name? := some value }
  | .maxDepth =>
    match readWord? value with
    | some limit => once options.maxDepth?.isSome { options with maxDepth? := some limit }
    | none => .error (.rejected (.invalidValue choice value))
  | .out =>
    if value = "" then .error (.rejected (.invalidValue choice value))
    else once options.out?.isSome { options with out? := some value }
  | .sortFields | .valueComments | .noSerde | .verbose | .version | .help =>
    .error (.rejected (.unexpectedValue choice))
where
  /-- Refuses an option that has been given before. -/
  once (given : Bool) (changed : Options) : Except Stop Options :=
    if given then .error (.rejected (.repeated choice)) else .ok changed

end Options

/-- What the next argument can be used for. -/
inductive Pending where
  | nothing
  /-- The option needs a value. -/
  | needs (choice : Choice)
  /-- The option takes a further value. -/
  | accepts (choice : Choice)
  deriving DecidableEq

/-- An option that still needs a value must not be left. -/
def Pending.close : Pending → Except Stop Unit
  | needs choice => .error (.rejected (.missingValue choice))
  | _ => .ok ()

/-- The form of an argument. -/
inductive Argument where
  /-- Two dashes alone: no option follows. -/
  | separator
  /-- Two dashes and a name, perhaps with a value after an equals sign. -/
  | long (name : String) (value? : Option String)
  /-- One dash and letters. -/
  | letters (letters : List Char)
  | plain

/-- The form of an argument. A dash alone is a plain argument. -/
def Argument.ofString (argument : String) : Argument :=
  match argument.toList with
  | ['-', '-'] => separator
  | '-' :: '-' :: text =>
    let name := String.ofList (text.takeWhile (· ≠ '='))
    match text.dropWhile (· ≠ '=') with
    | [] => long name none
    | _ :: value => long name (some (String.ofList value))
  | '-' :: c :: text => letters (c :: text)
  | _ => plain

/-- Takes letters of options one after another. The letter of an option with a value ends them:
what follows it, without an equals sign in front, is the value. -/
def takeLetters (target : Option Target) (argument : String) (options : Options) :
    List Char → Except Stop (Options × Pending)
  | [] => .ok (options, .nothing)
  | c :: text =>
    match (choices target).find? (·.letter? = some c) with
    | none => .error (.rejected (.unexpectedArgument argument))
    | some choice =>
      if choice.takesValue then
        match text with
        | [] => .ok (options, .needs choice)
        | '=' :: value | value => do
          return (← options.assign choice (String.ofList value), .nothing)
      else do takeLetters target argument (← options.switch choice) text

def takeLong (target : Option Target) (argument : String) (options : Options) (name : String)
    (value? : Option String) : Except Stop (Options × Pending) :=
  match (choices target).find? (·.longName = name) with
  | none => .error (.rejected (.unexpectedArgument argument))
  | some choice =>
    match choice.takesValue, value? with
    | true, some value => return (← options.assign choice value, .nothing)
    | true, none => .ok (options, .needs choice)
    | false, some _ => .error (.rejected (.unexpectedValue choice))
    | false, none => return (← options.switch choice, .nothing)

/-- Nothing may follow the separator, since no argument but options is known. -/
def afterSeparator : List String → Except Stop Unit
  | [] => .ok ()
  | argument :: _ => .error (.rejected (.unexpectedArgument argument))

def takeOptions (target : Target) (options : Options) (pending : Pending) :
    List String → Except Stop Options
  | [] => do
    pending.close
    return options
  | argument :: rest =>
    match Argument.ofString argument with
    | .separator => do
      pending.close
      afterSeparator rest
      return options
    | .long name value? => do
      pending.close
      let (options, pending) ← takeLong (some target) argument options name value?
      takeOptions target options pending rest
    | .letters letters => do
      pending.close
      let (options, pending) ← takeLetters (some target) argument options letters
      takeOptions target options pending rest
    | .plain =>
      match pending with
      | .nothing => .error (.rejected (.unexpectedArgument argument))
      | .needs choice | .accepts choice => do
        let options ← options.assign choice argument
        takeOptions target options (if choice = .input then .accepts choice else .nothing) rest

def command? : String → Option Target
  | "rust" => some .code
  | "schema" => some .view
  | _ => none

/-- Help is given on the whole program or on one command, and asking for help is a command. -/
def isHelpTopic : List String → Bool
  | [] => true
  | [name] => name = "help" || (command? name).isSome
  | _ => false

/-- Takes the arguments up to the command. The command reads what follows it on its own. -/
def takeCommand (options : Options) : List String → Except Stop (Target × Options)
  | [] => .error (.rejected .missingCommand)
  | argument :: rest =>
    match Argument.ofString argument with
    | .separator => do
      afterSeparator rest
      .error (.rejected .missingCommand)
    | .long name value? => do
      let (options, _) ← takeLong none argument options name value?
      takeCommand options rest
    | .letters letters => do
      let (options, _) ← takeLetters none argument options letters
      takeCommand options rest
    | .plain =>
      match command? argument with
      | some target => do
        let own ← takeOptions target {} .nothing rest
        return (target, { own with verbose := own.verbose || options.verbose })
      | none =>
        if argument = "help" && isHelpTopic rest then .error .help
        else .error (.rejected (.unexpectedArgument argument))

def parse (arguments : List String) : Except Halt (Target × Options) :=
  (takeCommand {} arguments).mapError Stop.halt

/-- The usual conventions: the options above, and patterns as shells have them. -/
def Conventions.usual {m : Type → Type} [Monad m] (host : Host m) : Conventions m :=
  ⟨CommandLine.parse, Glob.search host⟩

end Exemplar.CommandLine
