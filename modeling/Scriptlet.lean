import Scriptlet.CommandLine
import Scriptlet.Crash
import Scriptlet.Evaluator
import Scriptlet.Evaluator.Builtin
import Scriptlet.Evaluator.Eval
import Scriptlet.Evaluator.Trail
import Scriptlet.Fault
import Scriptlet.Highlight
import Scriptlet.Main
import Scriptlet.Printed
import Scriptlet.Proofs.Backtrack
import Scriptlet.Proofs.Bearings
import Scriptlet.Proofs.Belonging
import Scriptlet.Proofs.Blame
import Scriptlet.Proofs.Canonical
import Scriptlet.Proofs.Chronicle
import Scriptlet.Proofs.CleanRun
import Scriptlet.Proofs.Colours
import Scriptlet.Proofs.Completeness
import Scriptlet.Proofs.Correspondence
import Scriptlet.Proofs.Crashes
import Scriptlet.Proofs.Cutting
import Scriptlet.Proofs.DepthLimit
import Scriptlet.Proofs.Entries
import Scriptlet.Proofs.Frame
import Scriptlet.Proofs.FunctionText
import Scriptlet.Proofs.Grammar
import Scriptlet.Proofs.HashLiteral
import Scriptlet.Proofs.Invariant
import Scriptlet.Proofs.Joined
import Scriptlet.Proofs.Layout
import Scriptlet.Proofs.Lockstep
import Scriptlet.Proofs.LongestMatch
import Scriptlet.Proofs.Lookup
import Scriptlet.Proofs.Lossless
import Scriptlet.Proofs.MachineWord
import Scriptlet.Proofs.Mirror
import Scriptlet.Proofs.Nesting
import Scriptlet.Proofs.Orderly
import Scriptlet.Proofs.Origin
import Scriptlet.Proofs.Places
import Scriptlet.Proofs.Printing
import Scriptlet.Proofs.Progress
import Scriptlet.Proofs.ReadBack
import Scriptlet.Proofs.Recovery
import Scriptlet.Proofs.Renaming
import Scriptlet.Proofs.Repetition
import Scriptlet.Proofs.Reset
import Scriptlet.Proofs.RoundTrip
import Scriptlet.Proofs.Safety
import Scriptlet.Proofs.Seam
import Scriptlet.Proofs.Shape
import Scriptlet.Proofs.Sliding
import Scriptlet.Proofs.Soundness
import Scriptlet.Proofs.Spellable
import Scriptlet.Proofs.Spelling
import Scriptlet.Proofs.Streaming
import Scriptlet.Proofs.Tidy
import Scriptlet.Proofs.TokenUse
import Scriptlet.Proofs.Trail
import Scriptlet.Proofs.Unwinding
import Scriptlet.Proofs.Upkeep
import Scriptlet.Proofs.Visible
import Scriptlet.Proofs.Watched
import Scriptlet.Proofs.Wrapping
import Scriptlet.Repl
import Scriptlet.Repl.Command
import Scriptlet.Room
import Scriptlet.Session
import Scriptlet.Stage
import Scriptlet.Store
import Scriptlet.Text.Blank
import Scriptlet.Text.Decimal
import Scriptlet.Text.Newline
import Scriptlet.Text.Printable
import Scriptlet.Text.Quoted
import Scriptlet.Token
import Scriptlet.Token.Cursor
import Scriptlet.Token.Lexer
import Scriptlet.Tree
import Scriptlet.Tree.Parser
import Scriptlet.Tree.Precedence
import Scriptlet.Tree.Print
import Scriptlet.Tree.Render
import Scriptlet.Tree.Watched
import Scriptlet.Tree.Window
import Scriptlet.Value
import Scriptlet.Value.Digest
import Scriptlet.Value.HashTable
import Scriptlet.Value.Inspect
import Scriptlet.Value.Integer
import Scriptlet.Value.Kind
import Scriptlet.Value.Operator
