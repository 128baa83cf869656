import FourGL.CommandLine
import FourGL.CommandLine.Arguments
import FourGL.Completion
import FourGL.Completion.Bundled
import FourGL.Completion.InsertionPoint
import FourGL.Completion.Item
import FourGL.Completion.MemberKind
import FourGL.Completion.Pattern
import FourGL.Completion.Provider
import FourGL.Completion.Registry
import FourGL.Completion.Rule
import FourGL.Completion.RuleDocument
import FourGL.Completion.RuleDocument.Printer
import FourGL.Completion.RuleDocument.Reader
import FourGL.Completion.RuleDocument.Resolution
import FourGL.Diagnostic
import FourGL.Files
import FourGL.Files.Path
import FourGL.Grammar.Body
import FourGL.Grammar.Compound
import FourGL.Grammar.Context
import FourGL.Grammar.Declaration
import FourGL.Grammar.Expression
import FourGL.Grammar.Form
import FourGL.Grammar.Member
import FourGL.Grammar.Operator
import FourGL.Grammar.Parser
import FourGL.Grammar.Simple
import FourGL.Grammar.State
import FourGL.Grammar.TypeReference
import FourGL.Json
import FourGL.Json.Printer
import FourGL.Json.Reader
import FourGL.Json.Slot
import FourGL.Main
import FourGL.Options
import FourGL.Parse
import FourGL.Proofs.Completion.EnclosingRoutine
import FourGL.Proofs.Completion.Erasure
import FourGL.Proofs.Completion.Masks
import FourGL.Proofs.Completion.Meanings
import FourGL.Proofs.Completion.Patterns
import FourGL.Proofs.Completion.Reloading
import FourGL.Proofs.Completion.WrittenRules
import FourGL.Proofs.Grammar.Account
import FourGL.Proofs.Grammar.Agreement
import FourGL.Proofs.Grammar.Clean
import FourGL.Proofs.Grammar.Derivation
import FourGL.Proofs.Grammar.Flow
import FourGL.Proofs.Grammar.HeldSpans
import FourGL.Proofs.Grammar.Levels
import FourGL.Proofs.Grammar.LocatedBodies
import FourGL.Proofs.Grammar.Locations
import FourGL.Proofs.Grammar.MirroredBlocks
import FourGL.Proofs.Grammar.MirroredBodies
import FourGL.Proofs.Grammar.MirroredPhrases
import FourGL.Proofs.Grammar.MirroredStatements
import FourGL.Proofs.Grammar.Mirroring
import FourGL.Proofs.Grammar.Moves
import FourGL.Proofs.Grammar.NameState
import FourGL.Proofs.Grammar.NodesRead
import FourGL.Proofs.Grammar.Operands
import FourGL.Proofs.Grammar.Parallel
import FourGL.Proofs.Grammar.ParallelBlocks
import FourGL.Proofs.Grammar.Payload
import FourGL.Proofs.Grammar.Phrases
import FourGL.Proofs.Grammar.Place
import FourGL.Proofs.Grammar.Precedence
import FourGL.Proofs.Grammar.Progress
import FourGL.Proofs.Grammar.Rendering
import FourGL.Proofs.Grammar.Reports
import FourGL.Proofs.Grammar.Rereading
import FourGL.Proofs.Grammar.Rounds
import FourGL.Proofs.Grammar.RunProperties
import FourGL.Proofs.Grammar.ShapeState
import FourGL.Proofs.Grammar.Spans
import FourGL.Proofs.Grammar.Statements
import FourGL.Proofs.Grammar.Steps
import FourGL.Proofs.Grammar.TokensRead
import FourGL.Proofs.Grammar.TypeDepth
import FourGL.Proofs.Grammar.Versions
import FourGL.Proofs.Grammar.Wholeness
import FourGL.Proofs.Grammar.Yield
import FourGL.Proofs.Json.Written
import FourGL.Proofs.Options.Rereading
import FourGL.Proofs.Text.LineMap
import FourGL.Proofs.Token.Cuts
import FourGL.Proofs.Token.Faults
import FourGL.Proofs.Token.Issues
import FourGL.Proofs.Token.LetterCase
import FourGL.Proofs.Token.LexicalGrammar
import FourGL.Proofs.Token.LineBreaks
import FourGL.Proofs.Token.Lines
import FourGL.Proofs.Token.Modes
import FourGL.Proofs.Token.Queue
import FourGL.Proofs.Token.Spelling
import FourGL.Proofs.Token.Stream
import FourGL.Proofs.Token.StringLiterals
import FourGL.Proofs.Token.Tiling
import FourGL.Proofs.Tree.Completeness
import FourGL.Proofs.Tree.Coverage
import FourGL.Proofs.Tree.Cursors
import FourGL.Proofs.Tree.Declarations
import FourGL.Proofs.Tree.Depth
import FourGL.Proofs.Tree.ExpressionSpans
import FourGL.Proofs.Tree.Extents
import FourGL.Proofs.Tree.Innermost
import FourGL.Proofs.Tree.Jumps
import FourGL.Proofs.Tree.Layout
import FourGL.Proofs.Tree.NodeGrammar
import FourGL.Proofs.Tree.OpenBlocks
import FourGL.Proofs.Tree.Paths
import FourGL.Proofs.Tree.Placeholders
import FourGL.Proofs.Tree.Shape
import FourGL.Proofs.Tree.Shift
import FourGL.Proofs.Tree.Snippets
import FourGL.Proofs.Tree.SourceOrder
import FourGL.Proofs.Tree.Terminators
import FourGL.Proofs.Tree.Trivia
import FourGL.Proofs.Tree.TypeDepth
import FourGL.Proofs.Tree.Visits
import FourGL.Proofs.Version.Notation
import FourGL.Text.Alphabet
import FourGL.Text.Blank
import FourGL.Text.LineMap
import FourGL.Text.Quoted
import FourGL.Text.Span
import FourGL.Token
import FourGL.Token.Element
import FourGL.Token.Kind
import FourGL.Token.Lookahead
import FourGL.Token.Queue
import FourGL.Token.Scanner
import FourGL.Tree.Encoding
import FourGL.Tree.Expression
import FourGL.Tree.Node
import FourGL.Tree.Scope
import FourGL.Tree.TypeReference
import FourGL.Version
