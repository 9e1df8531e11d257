import SmallImp.CommandLine.Arguments
import SmallImp.CommandLine.Folder
import SmallImp.CommandLine.Job
import SmallImp.CommandLine.Path
import SmallImp.Diagnostic
import SmallImp.Main
import SmallImp.Number.Arithmetic
import SmallImp.Number.Binary64
import SmallImp.Number.Layout
import SmallImp.Number.Literal
import SmallImp.Number.Power
import SmallImp.Number.Shortest
import SmallImp.Operator
import SmallImp.Phrase.Basic
import SmallImp.Phrase.Level
import SmallImp.Phrase.Parser
import SmallImp.Phrase.Tree
import SmallImp.Program
import SmallImp.Proofs.Grammar.Acceptance
import SmallImp.Proofs.Grammar.Basic
import SmallImp.Proofs.Grammar.Commands
import SmallImp.Proofs.Grammar.Declarations
import SmallImp.Proofs.Grammar.Expressions
import SmallImp.Proofs.Grammar.FirstError
import SmallImp.Proofs.Grammar.Levels
import SmallImp.Proofs.Grammar.Productions
import SmallImp.Proofs.Grammar.Reading
import SmallImp.Proofs.Number.DecimalTexts
import SmallImp.Proofs.Number.Literals
import SmallImp.Proofs.Number.Magnitudes
import SmallImp.Proofs.Number.Powers
import SmallImp.Proofs.Number.Printing
import SmallImp.Proofs.Number.Remainders
import SmallImp.Proofs.Number.Rounding
import SmallImp.Proofs.Number.ShortestDecimals
import SmallImp.Proofs.Phrase.Blocks
import SmallImp.Proofs.Phrase.Commands
import SmallImp.Proofs.Phrase.Dump
import SmallImp.Proofs.Phrase.Else
import SmallImp.Proofs.Phrase.Expressions
import SmallImp.Proofs.Phrase.ForLoop
import SmallImp.Proofs.Phrase.Identifiers
import SmallImp.Proofs.Phrase.Layout
import SmallImp.Proofs.Phrase.LineEnds
import SmallImp.Proofs.Phrase.Places
import SmallImp.Proofs.Phrase.Positions
import SmallImp.Proofs.Phrase.Precedence
import SmallImp.Proofs.Phrase.Shape
import SmallImp.Proofs.Phrase.Spelling
import SmallImp.Proofs.Phrase.Tasks
import SmallImp.Proofs.Phrase.Wording
import SmallImp.Proofs.Semantics.Allocation
import SmallImp.Proofs.Semantics.BigStep
import SmallImp.Proofs.Semantics.Blame
import SmallImp.Proofs.Semantics.Calls
import SmallImp.Proofs.Semantics.Correspondence
import SmallImp.Proofs.Semantics.Errors
import SmallImp.Proofs.Semantics.Escapes
import SmallImp.Proofs.Semantics.Execution
import SmallImp.Proofs.Semantics.Faults
import SmallImp.Proofs.Semantics.ForLoop
import SmallImp.Proofs.Semantics.Frame
import SmallImp.Proofs.Semantics.Freshness
import SmallImp.Proofs.Semantics.Locations
import SmallImp.Proofs.Semantics.Names
import SmallImp.Proofs.Semantics.Postorder
import SmallImp.Proofs.Semantics.Raised
import SmallImp.Proofs.Semantics.Rules
import SmallImp.Proofs.Semantics.Sequence
import SmallImp.Proofs.Semantics.Structure
import SmallImp.Proofs.Semantics.Tasks
import SmallImp.Proofs.Source.Blocks
import SmallImp.Proofs.State.Growth
import SmallImp.Proofs.Text.JsonGrammar
import SmallImp.Proofs.Text.JsonText
import SmallImp.Proofs.Token.Blocks
import SmallImp.Proofs.Token.Lexemes
import SmallImp.Proofs.Token.LineEnds
import SmallImp.Proofs.Token.Scanned
import SmallImp.Proofs.Token.Separators
import SmallImp.Proofs.Token.Spacing
import SmallImp.Proofs.Token.Spare
import SmallImp.Proofs.Token.Tiling
import SmallImp.Proofs.Token.Ways
import SmallImp.Proofs.Tree.Encoding
import SmallImp.Proofs.Tree.Erasure
import SmallImp.Proofs.Tree.Nodes
import SmallImp.Proofs.Tree.Precedence
import SmallImp.Proofs.Tree.Sequence
import SmallImp.Proofs.Tree.Shape
import SmallImp.Proofs.Tree.Structure
import SmallImp.Run
import SmallImp.Session
import SmallImp.Source.Block
import SmallImp.State.Basic
import SmallImp.State.Bindings
import SmallImp.State.Description
import SmallImp.Text.DecimalDigit
import SmallImp.Text.Json
import SmallImp.Text.Printable
import SmallImp.Text.Quoted
import SmallImp.Token.Scan
import SmallImp.Token.Separator
import SmallImp.Token.Terminal
import SmallImp.Tree.Basic
import SmallImp.Tree.Encoding
import SmallImp.Tree.Node
import SmallImp.Tree.Sequence
import SmallImp.Value
