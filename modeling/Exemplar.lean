import Exemplar.CommandLine
import Exemplar.CommandLine.Arguments
import Exemplar.CommandLine.Glob
import Exemplar.CommandLine.Host
import Exemplar.CommandLine.Options
import Exemplar.CommandLine.Pattern
import Exemplar.Cursor
import Exemplar.Declaration
import Exemplar.Declaration.Names
import Exemplar.Event
import Exemplar.FileTree
import Exemplar.Fresh
import Exemplar.Identifier
import Exemplar.Inference
import Exemplar.Json
import Exemplar.Lexing
import Exemplar.Main
import Exemplar.Number.Binary64
import Exemplar.Number.Integral
import Exemplar.Number.Literal
import Exemplar.Number.Shortest
import Exemplar.Path
import Exemplar.Position
import Exemplar.Proofs.Absorption
import Exemplar.Proofs.Accounts
import Exemplar.Proofs.AccountsInference
import Exemplar.Proofs.Alarms
import Exemplar.Proofs.Arrangement
import Exemplar.Proofs.Blocks
import Exemplar.Proofs.Candour
import Exemplar.Proofs.CleanFailure
import Exemplar.Proofs.CollisionReports
import Exemplar.Proofs.CommentTexts
import Exemplar.Proofs.Conflicts
import Exemplar.Proofs.Continuation
import Exemplar.Proofs.Courses
import Exemplar.Proofs.Coverage
import Exemplar.Proofs.Covering
import Exemplar.Proofs.CoveringAssociativity
import Exemplar.Proofs.Cuts
import Exemplar.Proofs.DecimalRounding
import Exemplar.Proofs.DepthLimit
import Exemplar.Proofs.DistinctFields
import Exemplar.Proofs.DistinctIdentifiers
import Exemplar.Proofs.ExactNumbers
import Exemplar.Proofs.Exactness
import Exemplar.Proofs.Excerpts
import Exemplar.Proofs.FailedRuns
import Exemplar.Proofs.FieldNames
import Exemplar.Proofs.FieldShapes
import Exemplar.Proofs.FieldSteps
import Exemplar.Proofs.FirstError
import Exemplar.Proofs.Form
import Exemplar.Proofs.FreshStart
import Exemplar.Proofs.Freshness
import Exemplar.Proofs.Gathering
import Exemplar.Proofs.Grammar
import Exemplar.Proofs.Identifiers
import Exemplar.Proofs.InferredRoots
import Exemplar.Proofs.IntegralNumbers
import Exemplar.Proofs.JsonReading
import Exemplar.Proofs.Keyed
import Exemplar.Proofs.Layout
import Exemplar.Proofs.LeftOpen
import Exemplar.Proofs.Literals
import Exemplar.Proofs.Locality
import Exemplar.Proofs.MergeAssociativity
import Exemplar.Proofs.MergeDepth
import Exemplar.Proofs.MergeSteps
import Exemplar.Proofs.MergedFields
import Exemplar.Proofs.NumberGrammar
import Exemplar.Proofs.NumberLexing
import Exemplar.Proofs.NumberTokens
import Exemplar.Proofs.ObtainedRecords
import Exemplar.Proofs.OrderIndependence
import Exemplar.Proofs.OrderlyTrees
import Exemplar.Proofs.Positions
import Exemplar.Proofs.Records
import Exemplar.Proofs.Recounting
import Exemplar.Proofs.Refinement
import Exemplar.Proofs.Regrouping
import Exemplar.Proofs.ReservedNames
import Exemplar.Proofs.Resuming
import Exemplar.Proofs.Rounding
import Exemplar.Proofs.ScalarExamples
import Exemplar.Proofs.Scanning
import Exemplar.Proofs.SelfMerge
import Exemplar.Proofs.Sorting
import Exemplar.Proofs.Spelling
import Exemplar.Proofs.StringGrammar
import Exemplar.Proofs.StringTokens
import Exemplar.Proofs.Summary
import Exemplar.Proofs.SummaryInference
import Exemplar.Proofs.SummaryMerge
import Exemplar.Proofs.TokenEffects
import Exemplar.Proofs.TokenRanges
import Exemplar.Proofs.TokenRun
import Exemplar.Proofs.Truncation
import Exemplar.Proofs.TypeNames
import Exemplar.Proofs.Utf8
import Exemplar.Proofs.ValueComments
import Exemplar.Proofs.Values
import Exemplar.Proofs.ViewReading
import Exemplar.Proofs.WireNames
import Exemplar.ReadError
import Exemplar.Reader
import Exemplar.Rendering
import Exemplar.Shape
import Exemplar.Shape.Merge
import Exemplar.Shape.Sorted
import Exemplar.Shape.View
import Exemplar.Text.GraphemeExtend
import Exemplar.Text.Quoted
import Exemplar.Text.Unprintable
import Exemplar.Token
import Exemplar.Token.Scan
import Exemplar.Value
