import Diverge.Kind
import Diverge.ByteCount
import Diverge.Fault
import Diverge.Word
import Diverge.Sequence
import Diverge.Assoc
import Diverge.Buckets
import Diverge.Revision
import Diverge.Program
import Diverge.Expr.Basic
import Diverge.Expr.Render
import Diverge.Expr.Evaluate
import Diverge.Expr.Sharing
import Diverge.Expr.Table
import Diverge.Expr.Build
import Diverge.Expr.Split
import Diverge.Expr.Walk
import Diverge.Expr.Parts
import Diverge.Expr.Arrays
import Diverge.Expr.Reads
import Diverge.Constraints
import Diverge.Memory.Contents
import Diverge.Memory.Heap
import Diverge.State.Basic
import Diverge.State.Life
import Diverge.State.Merge
import Diverge.State.Report
import Diverge.Text.Hex
import Diverge.Text.Digit
import Diverge.Text.Integer
import Diverge.Text.Printable
import Diverge.Number.Binary64
import Diverge.Json.Basic
import Diverge.Json.Writer
import Diverge.Json.Reader
import Diverge.Json.Decode
import Diverge.Record.Basic
import Diverge.Record.Builder
import Diverge.Record.File
import Diverge.Divergence
import Diverge.Settings
import Diverge.Proofs.Computation
import Diverge.Proofs.Words
import Diverge.Proofs.Text
import Diverge.Proofs.Vectors
import Diverge.Proofs.Assoc
import Diverge.Proofs.Sequence
import Diverge.Proofs.Expr.Growth
import Diverge.Proofs.Expr.Nodes
import Diverge.Proofs.Expr.Registered
import Diverge.Proofs.Expr.Workshop
import Diverge.Proofs.Expr.Identity
import Diverge.Proofs.Expr.Walks
import Diverge.Proofs.Expr.Dependence
import Diverge.Proofs.Expr.Reads
import Diverge.Proofs.Expr.Values
import Diverge.Proofs.Expr.Conditions
import Diverge.Proofs.Expr.Reduced
import Diverge.Proofs.Expr.Texts
import Diverge.Proofs.Expr.Denotation
import Diverge.Proofs.Expr.Refinement
import Diverge.Proofs.Expr.Folding
import Diverge.Proofs.Constraints
import Diverge.Proofs.Guards
import Diverge.Proofs.Conjunction
import Diverge.Proofs.Split.Projection
import Diverge.Proofs.Split.Behaviour
import Diverge.Proofs.Split.Marks
import Diverge.Proofs.Memory.Ownership
import Diverge.Proofs.Memory.Opening
import Diverge.Proofs.Memory.Eager
import Diverge.Proofs.Memory.LittleEndian
import Diverge.Proofs.State.Soundness
import Diverge.Proofs.State.Life
import Diverge.Proofs.State.Merging
import Diverge.Proofs.State.Comparing
import Diverge.Proofs.State.Merge
import Diverge.Proofs.State.System
import Diverge.Proofs.State.Course
import Diverge.Proofs.State.Meetings
import Diverge.Proofs.Merge.Meaning
import Diverge.Proofs.Merge.Alike
import Diverge.Proofs.Merge.Order
import Diverge.Proofs.Merge.Confinement
import Diverge.Proofs.Merge.Revisions
import Diverge.Proofs.Json.RoundTrip
import Diverge.Proofs.Record.RoundTrip
import Diverge.Proofs.Record.Arguments
import Diverge.Proofs.State.Layout
import Diverge.Proofs.State.Effects
import Diverge.Proofs.State.Accounts
import Diverge.Proofs.State.Locals
import Diverge.Proofs.Merge.Resolution
import Diverge.Proofs.Merge.Twins
import Diverge.Proofs.Expr.Overflow
import Diverge.Proofs.Expr.Typing
import Diverge.Proofs.Split.WellFormed
import Diverge.Proofs.Expr.Roots
import Diverge.Proofs.Record.Outputs
import Diverge.Proofs.Record.Quoting
import Diverge.Proofs.Record.Replay
import Diverge.Proofs.State.Reports
import Diverge.Proofs.Expr.Unambiguous
import Diverge.Proofs.Expr.Preorder
import Diverge.Proofs.Memory.Exclusion
