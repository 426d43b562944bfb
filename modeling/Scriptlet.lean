import Scriptlet.Check
import Scriptlet.CommandLine
import Scriptlet.Console
import Scriptlet.Disk
import Scriptlet.Eval
import Scriptlet.Fault
import Scriptlet.Heap
import Scriptlet.Heap.Equality
import Scriptlet.Heap.Inspect
import Scriptlet.Index
import Scriptlet.Library
import Scriptlet.Machine
import Scriptlet.Main
import Scriptlet.Native
import Scriptlet.NativeCall
import Scriptlet.Number.Decimal
import Scriptlet.Number.Double
import Scriptlet.Number.Numeral
import Scriptlet.Number.Shortest
import Scriptlet.Number.Text
import Scriptlet.Operation
import Scriptlet.Options
import Scriptlet.Outline
import Scriptlet.Position
import Scriptlet.Report
import Scriptlet.Scope
import Scriptlet.Script
import Scriptlet.Session
import Scriptlet.Source
import Scriptlet.Streams
import Scriptlet.SyntaxError
import Scriptlet.Text.Blank
import Scriptlet.Text.Hidden
import Scriptlet.Text.Quoted
import Scriptlet.Token
import Scriptlet.Tree
import Scriptlet.Tree.Level
import Scriptlet.Tree.Outline
import Scriptlet.Tree.Parser
import Scriptlet.Value
import Scriptlet.Proofs.Parsing.Rule
import Scriptlet.Proofs.Parsing.Spans
import Scriptlet.Proofs.Lexing.Join
import Scriptlet.Proofs.Lexing.Lines
import Scriptlet.Proofs.Lexing.Respelling
import Scriptlet.Proofs.Lexing.Order
import Scriptlet.Proofs.Lexing.Pieces
import Scriptlet.Proofs.Lexing.Spelling
import Scriptlet.Proofs.Parsing.Along
import Scriptlet.Proofs.Parsing.Formed
import Scriptlet.Proofs.Parsing.Fuel
import Scriptlet.Proofs.Parsing.Glue
import Scriptlet.Proofs.Parsing.Growth
import Scriptlet.Proofs.Printing
import Scriptlet.Proofs.Recovery
import Scriptlet.Proofs.Separation
import Scriptlet.Proofs.Balance
import Scriptlet.Proofs.Budget
import Scriptlet.Proofs.Equality
import Scriptlet.Proofs.Running.Alike
import Scriptlet.Proofs.Limits
import Scriptlet.Proofs.Parsing.Sites
import Scriptlet.Proofs.Anchors
import Scriptlet.Proofs.Provenance
import Scriptlet.Proofs.Chains
import Scriptlet.Proofs.Scoping
import Scriptlet.Proofs.Cleanness
import Scriptlet.Proofs.Confinement
import Scriptlet.Proofs.Structural
import Scriptlet.Proofs.Running.Ending
import Scriptlet.Proofs.Sequence
import Scriptlet.Proofs.Reentry
import Scriptlet.Proofs.Running.Literal
import Scriptlet.Proofs.Importing.Graph
import Scriptlet.Proofs.Importing
import Scriptlet.Proofs.Inspection
import Scriptlet.Proofs.Decorators
import Scriptlet.Proofs.Insertion
import Scriptlet.Proofs.Showing
import Scriptlet.Proofs.Running.Retention
import Scriptlet.Proofs.Running.View
import Scriptlet.Proofs.Running.Discreet
import Scriptlet.Proofs.Running.Isolation
import Scriptlet.Proofs.Library
import Scriptlet.Proofs.Traversal
import Scriptlet.Proofs.Capabilities
import Scriptlet.Proofs.Coloring
import Scriptlet.Proofs.Number.Exact
import Scriptlet.Proofs.Indexing
import Scriptlet.Proofs.Parsing.Halting
import Scriptlet.Proofs.Halting
import Scriptlet.Proofs.Tree.Proper
import Scriptlet.Proofs.Parsing.Proper
import Scriptlet.Proofs.Running.Modest
import Scriptlet.Proofs.Running.Proper
import Scriptlet.Proofs.Fallbacks
