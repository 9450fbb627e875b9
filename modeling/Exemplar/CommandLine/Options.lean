/-!
# What a run is asked to do

A run is given a command, options and the texts that name its inputs. How arguments are read as
options and which paths match a pattern is not decided here: a run goes by the conventions that it
is given.
-/

namespace Exemplar.CommandLine

/-- What a run produces. -/
inductive Target where
  /-- Type declarations. -/
  | code
  /-- The view of the inferred roots. -/
  | view
  deriving DecidableEq

/-- The options of a run, as far as they are given. -/
structure Options where
  verbose : Bool := false
  inputs : List String := []
  name? : Option String := none
  initialisms : List String := []
  maxDepth? : Option Nat := none
  sortFields : Bool := false
  valueComments : Bool := false
  noSerde : Bool := false
  out? : Option String := none

/-- The inputs to read: the standard input, unless others are given. -/
def Options.sources (options : Options) : List String :=
  if options.inputs.isEmpty then ["-"] else options.inputs

/-- Why arguments lead to no run. -/
inductive Halt where
  /-- They only ask for a text, such as help. -/
  | shown (text : String)
  | rejected (complaint : String)
  deriving DecidableEq

/-- What looking for a pattern brings up, in order: paths that match, and complaints about places
where nothing could be looked up. A text that is no pattern brings up a complaint alone. -/
abbrev Matches := Except String (List (Except String String))

/-- How arguments are read, and how paths are looked for. -/
structure Conventions (m : Type → Type) where
  /-- The command and the options that arguments stand for. -/
  parse : List String → Except Halt (Target × Options)
  /-- The paths that match a pattern. -/
  search : String → m Matches

end Exemplar.CommandLine
