import SampledProfile.Call
import SampledProfile.Catalog
import SampledProfile.CommandLine.Help
import SampledProfile.CommandLine.Invocation
import SampledProfile.CommandLine.Program
import SampledProfile.CommandLine.Switch
import SampledProfile.CommandLine.Token
import SampledProfile.Contraction
import SampledProfile.Directory
import SampledProfile.Duration
import SampledProfile.Export
import SampledProfile.Fault
import SampledProfile.Frame
import SampledProfile.Json.Reader
import SampledProfile.Json.Writer
import SampledProfile.Log
import SampledProfile.Main
import SampledProfile.Model
import SampledProfile.NodeTable
import SampledProfile.Numeric.Binary64
import SampledProfile.Numeric.Decimal
import SampledProfile.Numeric.Exact
import SampledProfile.Numeric.Extended
import SampledProfile.Numeric.Number
import SampledProfile.Numeric.Scalar
import SampledProfile.Path
import SampledProfile.Pool
import SampledProfile.ProfileFile
import SampledProfile.Proofs.Forest
import SampledProfile.Proofs.Names
import SampledProfile.Proofs.Outcome
import SampledProfile.Recording
import SampledProfile.Replay
import SampledProfile.Report
import SampledProfile.Samples.Given
import SampledProfile.Samples.Order
import SampledProfile.Samples.Repair
import SampledProfile.Samples.Runs
import SampledProfile.Samples.Timeline
import SampledProfile.Settings
import SampledProfile.Store.Address
import SampledProfile.Store.Basic
import SampledProfile.Style
import SampledProfile.Summary
import SampledProfile.Tables.Basic
import SampledProfile.Tables.Cell
import SampledProfile.Tables.Definition
import SampledProfile.Tables.Image.Bytes
import SampledProfile.Tables.Image.Reader
import SampledProfile.Tables.Image.Record
import SampledProfile.Tables.Image.Recovery
import SampledProfile.Tables.Image.Writer
import SampledProfile.Tables.Numeral
import SampledProfile.Text.Blank
import SampledProfile.Text.Digit
import SampledProfile.Text.Integer
import SampledProfile.Text.Numeral
import SampledProfile.Text.Printable
import SampledProfile.Text.Quoted
import SampledProfile.Tree
import SampledProfile.Value.Arithmetic
import SampledProfile.Value.Basic
import SampledProfile.Value.Key
import SampledProfile.Value.Text
import SampledProfile.Workspace
import SampledProfile.Proofs.NodeTable.Children
import SampledProfile.Proofs.Contraction.Nearest
import SampledProfile.Proofs.Contraction.Walk
import SampledProfile.Proofs.Calls
import SampledProfile.Proofs.Contraction.Source
import SampledProfile.Proofs.Contraction.Contracted
import SampledProfile.Proofs.Contraction.Termination
import SampledProfile.Proofs.Contraction.Frontier
import SampledProfile.Proofs.Contraction.Accepted
import SampledProfile.Proofs.Arena
import SampledProfile.Proofs.Replay.Frames
import SampledProfile.Proofs.Replay.Paths
import SampledProfile.Proofs.Replay.Stacks
import SampledProfile.Proofs.Replay.Refinement
import SampledProfile.Proofs.Loaded
import SampledProfile.Proofs.Replay.Windows
import SampledProfile.Proofs.Replay.Brackets
import SampledProfile.Proofs.Samples.Chronology
import SampledProfile.Proofs.Replay.Exact
import SampledProfile.Proofs.Replay.SelfTime
import SampledProfile.Proofs.Replay.Forward
import SampledProfile.Proofs.Arena.Layout
import SampledProfile.Proofs.Arena.Totals
import SampledProfile.Proofs.Contraction.Weights
import SampledProfile.Proofs.Contraction.Ids
import SampledProfile.Proofs.Contraction.Agreement
import SampledProfile.Proofs.Places
import SampledProfile.Proofs.Conservation
import SampledProfile.Proofs.Lookups
import SampledProfile.Proofs.Recording.Heads
import SampledProfile.Proofs.Refusals
import SampledProfile.Proofs.Formats
import SampledProfile.Proofs.Effect
import SampledProfile.Proofs.Export.Course
import SampledProfile.Proofs.Store.Fresh
import SampledProfile.Proofs.Export.History
import SampledProfile.Proofs.Numeric.Largest
import SampledProfile.Proofs.Samples.Comparisons
import SampledProfile.Proofs.Numeric.Size
import SampledProfile.Proofs.Contraction.Refused
import SampledProfile.Proofs.Contraction.Mass
import SampledProfile.Proofs.Recording.Mass
import SampledProfile.Proofs.Documented
import SampledProfile.Proofs.Pool.Rooted
import SampledProfile.Proofs.Report.Agreement
import SampledProfile.Proofs.Renaming.Models
import SampledProfile.Proofs.Joined
import SampledProfile.Proofs.Replay.Tiling
import SampledProfile.Proofs.Report.Levels
import SampledProfile.Proofs.Counted
import SampledProfile.Proofs.Linked
import SampledProfile.Proofs.Report.Preorder
import SampledProfile.Proofs.Replay.Buffers
import SampledProfile.Proofs.Json.Digits
import SampledProfile.Proofs.ProfileFile
import SampledProfile.Proofs.Shuffled
import SampledProfile.Proofs.Contraction.Moved
import SampledProfile.Proofs.Reordered
import SampledProfile.Proofs.Numeric.Places
import SampledProfile.Proofs.Duration
import SampledProfile.Proofs.Pool.Totals
import SampledProfile.Proofs.Pool.Renewed
