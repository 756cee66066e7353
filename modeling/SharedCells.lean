import SharedCells.Access
import SharedCells.Benchmark
import SharedCells.Binary64
import SharedCells.Call
import SharedCells.Cell
import SharedCells.CommandLine
import SharedCells.Concurrent.Election
import SharedCells.Concurrent.Handshake
import SharedCells.Concurrent.Pool
import SharedCells.Concurrent.RetryCount
import SharedCells.Disk.Basic
import SharedCells.Disk.Listing
import SharedCells.Disk.Name
import SharedCells.Disk.Node
import SharedCells.Disk.Path
import SharedCells.Disk.Place
import SharedCells.Event
import SharedCells.Failure
import SharedCells.Host.Memory
import SharedCells.Host.Refusal
import SharedCells.Host.View
import SharedCells.Json.Basic
import SharedCells.Json.Fault
import SharedCells.Json.Number
import SharedCells.Json.Reader
import SharedCells.Layout
import SharedCells.Main
import SharedCells.Numeral
import SharedCells.Order
import SharedCells.Outcome
import SharedCells.Program
import SharedCells.Proofs.Cell.Integer
import SharedCells.Proofs.Cell.Retry
import SharedCells.Proofs.Concurrent.Detection
import SharedCells.Proofs.Concurrent.Linearization
import SharedCells.Proofs.Concurrent.Misses
import SharedCells.Proofs.Concurrent.Moves
import SharedCells.Proofs.Concurrent.Ownership
import SharedCells.Proofs.Concurrent.Tickets
import SharedCells.Proofs.Concurrent.Winners
import SharedCells.Proofs.Disk.Changes
import SharedCells.Proofs.Disk.Distinct
import SharedCells.Proofs.Disk.Paths
import SharedCells.Proofs.Disk.Places
import SharedCells.Proofs.Host.Bytes
import SharedCells.Proofs.Host.Digits
import SharedCells.Proofs.Host.Disjoint
import SharedCells.Proofs.Host.Message
import SharedCells.Proofs.Host.Views
import SharedCells.Proofs.Json.Number
import SharedCells.Proofs.Json.Pretty
import SharedCells.Proofs.Program.Arguments
import SharedCells.Proofs.Program.Configuration
import SharedCells.Proofs.Program.Effects
import SharedCells.Proofs.Program.Options
import SharedCells.Proofs.Rate.Borders
import SharedCells.Proofs.Rate.Faithful
import SharedCells.Proofs.Rate.Ranking
import SharedCells.Proofs.Rate.Reading
import SharedCells.Proofs.Rate.Rounding
import SharedCells.Proofs.Rate.Worth
import SharedCells.Proofs.Report.Collect
import SharedCells.Proofs.Report.Description
import SharedCells.Proofs.Report.Document
import SharedCells.Proofs.Report.Failure
import SharedCells.Proofs.Report.Origin
import SharedCells.Proofs.Report.ReadBack
import SharedCells.Proofs.Report.Rows
import SharedCells.Proofs.Report.Table
import SharedCells.Proofs.Report.Walk
import SharedCells.Proofs.Stress.Document
import SharedCells.Proofs.Stress.Retries
import SharedCells.Proofs.Stress.Verdict
import SharedCells.Proofs.Text.ByteOrder
import SharedCells.Proofs.Text.Cut
import SharedCells.Proofs.Text.Debug
import SharedCells.Proofs.Text.Radix
import SharedCells.Rate
import SharedCells.Report.Generate
import SharedCells.Report.Sample
import SharedCells.Report.Table
import SharedCells.Script
import SharedCells.Stress.Report
import SharedCells.Stress.Run
import SharedCells.Text.Debug
import SharedCells.Text.Utf8
import SharedCells.Width
