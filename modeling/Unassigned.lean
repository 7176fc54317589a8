import Unassigned.Command.Arguments
import Unassigned.Command.Help
import Unassigned.Command.Lint
import Unassigned.Command.Run
import Unassigned.Command.Signatures
import Unassigned.Command.Terminal
import Unassigned.Command.Workspace
import Unassigned.Defect
import Unassigned.DocComment
import Unassigned.Files.History
import Unassigned.Files.Path
import Unassigned.Files.Tree
import Unassigned.Json.Basic
import Unassigned.Json.Parser
import Unassigned.Lint.Linter
import Unassigned.Lint.Report
import Unassigned.LogRecord
import Unassigned.Main
import Unassigned.Ordered
import Unassigned.Proofs.ArgumentLists
import Unassigned.Proofs.ArrowScope
import Unassigned.Proofs.Boundary
import Unassigned.Proofs.Brackets
import Unassigned.Proofs.CallKeys
import Unassigned.Proofs.Checked
import Unassigned.Proofs.Checked.Lexer
import Unassigned.Proofs.Checked.Scan
import Unassigned.Proofs.Checked.Stream
import Unassigned.Proofs.DecimalText
import Unassigned.Proofs.Destructuring
import Unassigned.Proofs.Discipline
import Unassigned.Proofs.DocAnnotations
import Unassigned.Proofs.ErrorToken
import Unassigned.Proofs.Exclusion
import Unassigned.Proofs.FileReports
import Unassigned.Proofs.FileScopeSwitch
import Unassigned.Proofs.FileVariable
import Unassigned.Proofs.Formatting
import Unassigned.Proofs.Formatting.Code
import Unassigned.Proofs.Formatting.Declarations
import Unassigned.Proofs.Formatting.Layout
import Unassigned.Proofs.Formatting.Loop
import Unassigned.Proofs.Formatting.Plan
import Unassigned.Proofs.Formatting.Run
import Unassigned.Proofs.Formatting.State
import Unassigned.Proofs.Formatting.Statement
import Unassigned.Proofs.Formatting.Step
import Unassigned.Proofs.FunctionHeader
import Unassigned.Proofs.Heights
import Unassigned.Proofs.HeredocBody
import Unassigned.Proofs.Innermost
import Unassigned.Proofs.Isolation
import Unassigned.Proofs.ItemForms
import Unassigned.Proofs.KeywordContext
import Unassigned.Proofs.Knowledge
import Unassigned.Proofs.Level
import Unassigned.Proofs.LexemeOrigins
import Unassigned.Proofs.LexerLoops
import Unassigned.Proofs.LexerMachine
import Unassigned.Proofs.ListSegments
import Unassigned.Proofs.LoopAssignments
import Unassigned.Proofs.Lossless
import Unassigned.Proofs.Moments
import Unassigned.Proofs.NamedOnce
import Unassigned.Proofs.Nesting
import Unassigned.Proofs.Outcome
import Unassigned.Proofs.ParameterForm
import Unassigned.Proofs.ParameterMarks
import Unassigned.Proofs.ParameterReading
import Unassigned.Proofs.ParameterText
import Unassigned.Proofs.PlainStrings
import Unassigned.Proofs.PlanShape
import Unassigned.Proofs.Positions
import Unassigned.Proofs.PrototypeForms
import Unassigned.Proofs.PrototypeText
import Unassigned.Proofs.Prototypes
import Unassigned.Proofs.Pruning
import Unassigned.Proofs.Punctuation
import Unassigned.Proofs.ReadReports
import Unassigned.Proofs.RecordedReferences
import Unassigned.Proofs.ReferenceArguments
import Unassigned.Proofs.RelaxedMode
import Unassigned.Proofs.Resolution
import Unassigned.Proofs.RightSide
import Unassigned.Proofs.ScannerCalls
import Unassigned.Proofs.Scanning
import Unassigned.Proofs.ScopeHistory
import Unassigned.Proofs.ScopeStep
import Unassigned.Proofs.Search
import Unassigned.Proofs.SearchEnds
import Unassigned.Proofs.SignatureRoundTrip
import Unassigned.Proofs.StepEnd
import Unassigned.Proofs.StraightLine
import Unassigned.Proofs.StraightLine.File
import Unassigned.Proofs.StraightLine.Header
import Unassigned.Proofs.StraightLine.Program
import Unassigned.Proofs.StraightLine.Scope
import Unassigned.Proofs.StraightLine.Tokens
import Unassigned.Proofs.Tables
import Unassigned.Proofs.Trigger
import Unassigned.Proofs.UnusedValues
import Unassigned.Proofs.Wording
import Unassigned.Scan.Call
import Unassigned.Scan.Command
import Unassigned.Scan.Error
import Unassigned.Scan.Function
import Unassigned.Scan.Loop
import Unassigned.Scan.Pattern
import Unassigned.Scan.Run
import Unassigned.Scan.State
import Unassigned.Scan.Statement
import Unassigned.Scan.Step
import Unassigned.Scope.Basic
import Unassigned.Scope.Operation
import Unassigned.Scope.Stack
import Unassigned.Settings
import Unassigned.Settings.Use
import Unassigned.Signature.Basic
import Unassigned.Signature.Builtin
import Unassigned.Signature.Description
import Unassigned.Signature.Parser
import Unassigned.Signature.Table
import Unassigned.Source.File
import Unassigned.Source.Stream
import Unassigned.Text.Basic
import Unassigned.Text.CellWidth
import Unassigned.Text.LowerCase
import Unassigned.Text.Number
import Unassigned.Text.Quoted
import Unassigned.Text.Utf8
import Unassigned.Text.Word
import Unassigned.Token.Basic
import Unassigned.Token.Error
import Unassigned.Token.Keyword
import Unassigned.Token.Lexeme
import Unassigned.Token.Lexer
