import BlockingCalls.CommandLine.Arguments
import BlockingCalls.CommandLine.Report
import BlockingCalls.CommandLine.Run
import BlockingCalls.Config
import BlockingCalls.Decimal.Binary64
import BlockingCalls.Decimal.Digits
import BlockingCalls.Decimal.Shortest
import BlockingCalls.Fault
import BlockingCalls.Finding
import BlockingCalls.Graph.Alias
import BlockingCalls.Graph.Calls
import BlockingCalls.Graph.Location
import BlockingCalls.Graph.Propagation
import BlockingCalls.Graph.Registry
import BlockingCalls.Graph.Summary
import BlockingCalls.Ignore.Expression
import BlockingCalls.Ignore.Glob
import BlockingCalls.Ignore.Rules
import BlockingCalls.Json.Characters
import BlockingCalls.Json.Reader
import BlockingCalls.Json.Value
import BlockingCalls.Log
import BlockingCalls.Main
import BlockingCalls.Parsed
import BlockingCalls.Path
import BlockingCalls.Session.Basic
import BlockingCalls.Session.Concurrent
import BlockingCalls.Session.Traversal
import BlockingCalls.Settings.Basic
import BlockingCalls.Settings.Reading
import BlockingCalls.Source
import BlockingCalls.Specifier
import BlockingCalls.Table
import BlockingCalls.Text.Blank
import BlockingCalls.Text.Bytes
import BlockingCalls.Text.DecimalDigit
import BlockingCalls.Text.Order
import BlockingCalls.Text.Place
import BlockingCalls.Text.Printable
import BlockingCalls.Text.Quoted
import BlockingCalls.Text.Segments
import BlockingCalls.Text.Uppercase
import BlockingCalls.Text.Utf8
import BlockingCalls.Tree.Item
import BlockingCalls.Tree.Language
import BlockingCalls.Tree.Node
import BlockingCalls.Tree.Visit
import BlockingCalls.Url.Address
import BlockingCalls.Url.Reference
import BlockingCalls.World.Basic
import BlockingCalls.World.Command
import BlockingCalls.World.Description
import BlockingCalls.World.Errno
import BlockingCalls.World.Extent
import BlockingCalls.Proofs.Codebase
import BlockingCalls.Proofs.Enclosing
import BlockingCalls.Proofs.LeastClosure
import BlockingCalls.Proofs.Summary
import BlockingCalls.Proofs.Table
import BlockingCalls.Proofs.Session.View
import BlockingCalls.Proofs.Session.Merged
import BlockingCalls.Proofs.Session.Updates
import BlockingCalls.Proofs.Session.Reach
import BlockingCalls.Proofs.Session.Chains
import BlockingCalls.Proofs.Extent
import BlockingCalls.Proofs.Session.Turns
import BlockingCalls.Proofs.Session.Balance
import BlockingCalls.Proofs.Session.Concurrent
import BlockingCalls.Proofs.Session.Modes
import BlockingCalls.Proofs.Session.Covers
import BlockingCalls.Proofs.Session.Settles
import BlockingCalls.Proofs.Session.Orderly
import BlockingCalls.Proofs.Session.Interleaving
import BlockingCalls.Proofs.Session.Waiting
import BlockingCalls.Proofs.Session.Schedules
import BlockingCalls.Proofs.Session.Held
import BlockingCalls.Proofs.Session.Returns
import BlockingCalls.Proofs.Session.Failures
import BlockingCalls.Proofs.Session.Consistency
import BlockingCalls.Proofs.Findings
import BlockingCalls.Proofs.Session.Frozen
import BlockingCalls.Proofs.Session.Roots
import BlockingCalls.Proofs.Session.Locations
import BlockingCalls.Proofs.Origins
import BlockingCalls.Proofs.Descent
import BlockingCalls.Proofs.Recording
import BlockingCalls.Proofs.Diagnosis
import BlockingCalls.Proofs.Session.Recursion
import BlockingCalls.Proofs.Passes
import BlockingCalls.Proofs.Seeds
import BlockingCalls.Proofs.Enumeration
import BlockingCalls.Proofs.Positions
import BlockingCalls.Proofs.SourceOrder
import BlockingCalls.Proofs.Segments
import BlockingCalls.Proofs.Tokens
import BlockingCalls.Proofs.Url.Parts
import BlockingCalls.Proofs.Url.Joining
import BlockingCalls.Proofs.Url.Origin
import BlockingCalls.Proofs.Url.Extension
import BlockingCalls.Proofs.Place
import BlockingCalls.Proofs.Canonical
import BlockingCalls.Proofs.Ignored
import BlockingCalls.Proofs.ImportChains
