import InvocationTrace.Binary64
import InvocationTrace.Cause
import InvocationTrace.Cli.Arguments
import InvocationTrace.Cli.Command
import InvocationTrace.Cli.Outcome
import InvocationTrace.Elapsed
import InvocationTrace.Event
import InvocationTrace.Event.Decode
import InvocationTrace.Fault
import InvocationTrace.FileTree
import InvocationTrace.Forest
import InvocationTrace.Grouping
import InvocationTrace.Index
import InvocationTrace.Invocation
import InvocationTrace.Json.Basic
import InvocationTrace.Json.Numeral
import InvocationTrace.Json.Parser
import InvocationTrace.Json.Record
import InvocationTrace.Location
import InvocationTrace.Log
import InvocationTrace.Main
import InvocationTrace.Proofs.Cli.Faults
import InvocationTrace.Proofs.Elapsed
import InvocationTrace.Proofs.Grouping
import InvocationTrace.Proofs.Index.Contents
import InvocationTrace.Proofs.Index.Fields
import InvocationTrace.Proofs.Index.Growth
import InvocationTrace.Proofs.Index.Outcome
import InvocationTrace.Proofs.Index.Record
import InvocationTrace.Proofs.Index.Renumbering
import InvocationTrace.Proofs.Index.Reported
import InvocationTrace.Proofs.Index.Runs
import InvocationTrace.Proofs.Log.Chunks
import InvocationTrace.Proofs.Log.Interleaving
import InvocationTrace.Proofs.Log.Noise
import InvocationTrace.Proofs.Log.OwnRuns
import InvocationTrace.Proofs.Log.Unrecognised
import InvocationTrace.Proofs.Ranking
import InvocationTrace.Proofs.Report.Conservation
import InvocationTrace.Proofs.Report.Delivery
import InvocationTrace.Proofs.Report.Frame
import InvocationTrace.Proofs.Report.Renumbering
import InvocationTrace.Proofs.Report.Top
import InvocationTrace.Proofs.Root.Agreement
import InvocationTrace.Proofs.Root.Fields
import InvocationTrace.Proofs.Root.Growth
import InvocationTrace.Proofs.Root.Listing
import InvocationTrace.Proofs.Root.Recency
import InvocationTrace.Proofs.Root.Summary
import InvocationTrace.Proofs.Rounding
import InvocationTrace.Proofs.Text.Lowercase
import InvocationTrace.Proofs.Text.Utf8
import InvocationTrace.Proofs.Totals
import InvocationTrace.Proofs.Tree.Descent
import InvocationTrace.Proofs.Tree.Drawing
import InvocationTrace.Proofs.Tree.Paths
import InvocationTrace.Proofs.Tree.Reachable
import InvocationTrace.Proofs.Tree.Siblings
import InvocationTrace.Proofs.Tree.Subtree
import InvocationTrace.Proofs.Tree.WithoutRuns
import InvocationTrace.Report
import InvocationTrace.Report.Text
import InvocationTrace.Root.Listing
import InvocationTrace.Root.Record
import InvocationTrace.Root.Summary
import InvocationTrace.Root.Text
import InvocationTrace.Run
import InvocationTrace.Signed64
import InvocationTrace.Status
import InvocationTrace.Text.Blank
import InvocationTrace.Text.Cased
import InvocationTrace.Text.Column
import InvocationTrace.Text.Lines
import InvocationTrace.Text.Lowercase
import InvocationTrace.Text.Lowercase.Table
import InvocationTrace.Text.Numeral
import InvocationTrace.Text.Search
import InvocationTrace.Text.Utf8
import InvocationTrace.Tree
import InvocationTrace.Proofs.Cause
import InvocationTrace.Proofs.Root.AgentFilter
import InvocationTrace.Proofs.Text.Numeral
import InvocationTrace.Proofs.Json.Integer
import InvocationTrace.Proofs.Json.Record
import InvocationTrace.Proofs.Log.Decoding
import InvocationTrace.Proofs.Root.ReadBack
