import ExtentEngine.Aggregate.Accumulator
import ExtentEngine.Aggregate.Codec
import ExtentEngine.Aggregate.Description
import ExtentEngine.Aggregate.Function
import ExtentEngine.Aggregate.Merging
import ExtentEngine.Aggregate.Moments
import ExtentEngine.Aggregate.Spill
import ExtentEngine.Aggregate.SpillingTable
import ExtentEngine.Aggregate.Table
import ExtentEngine.Aggregate.Terse
import ExtentEngine.Aggregate.Total
import ExtentEngine.Binary64.Arithmetic
import ExtentEngine.Binary64.Basic
import ExtentEngine.Binary64.Rounding
import ExtentEngine.Column
import ExtentEngine.Dataset.Action
import ExtentEngine.Dataset.Basic
import ExtentEngine.Dataset.Cursor
import ExtentEngine.Dataset.Emission
import ExtentEngine.Dataset.Writer
import ExtentEngine.Decimal.Notation
import ExtentEngine.Decimal.Numeral
import ExtentEngine.Decimal.Shortest
import ExtentEngine.Disk.Basic
import ExtentEngine.Disk.FileName
import ExtentEngine.Disk.Lines
import ExtentEngine.Disk.Path
import ExtentEngine.Expr.Basic
import ExtentEngine.Expr.Evaluation
import ExtentEngine.Expr.Terse
import ExtentEngine.Expr.Typing
import ExtentEngine.Fault
import ExtentEngine.Join.Basic
import ExtentEngine.Join.HashTable
import ExtentEngine.Join.MatchFlags
import ExtentEngine.Join.Method
import ExtentEngine.Join.NestedLoop
import ExtentEngine.Join.Pairing
import ExtentEngine.Join.RowIndex
import ExtentEngine.Join.SortMerge
import ExtentEngine.Join.Spec
import ExtentEngine.Json.Basic
import ExtentEngine.Json.Parser
import ExtentEngine.Json.Shape
import ExtentEngine.Operator
import ExtentEngine.Partition.Basic
import ExtentEngine.Partition.Job
import ExtentEngine.Partition.Requests
import ExtentEngine.Partition.Schedule
import ExtentEngine.Plan.Aggregation
import ExtentEngine.Plan.Merge
import ExtentEngine.Plan.Partitioned
import ExtentEngine.Plan.Settings
import ExtentEngine.Plan.Stats
import ExtentEngine.Proofs.Aggregate.Arising
import ExtentEngine.Proofs.Aggregate.Assembly
import ExtentEngine.Proofs.Aggregate.Codec
import ExtentEngine.Proofs.Aggregate.Conforming
import ExtentEngine.Proofs.Aggregate.Consolidation
import ExtentEngine.Proofs.Aggregate.Damage
import ExtentEngine.Proofs.Aggregate.Exact
import ExtentEngine.Proofs.Aggregate.Extremum
import ExtentEngine.Proofs.Aggregate.Failures
import ExtentEngine.Proofs.Aggregate.Family
import ExtentEngine.Proofs.Aggregate.Gathering
import ExtentEngine.Proofs.Aggregate.Groups
import ExtentEngine.Proofs.Aggregate.Histories
import ExtentEngine.Proofs.Aggregate.Homomorphism
import ExtentEngine.Proofs.Aggregate.Intact
import ExtentEngine.Proofs.Aggregate.Kinds
import ExtentEngine.Proofs.Aggregate.Moments
import ExtentEngine.Proofs.Aggregate.Occurrences
import ExtentEngine.Proofs.Aggregate.Overflow
import ExtentEngine.Proofs.Aggregate.Parts
import ExtentEngine.Proofs.Aggregate.Recounting
import ExtentEngine.Proofs.Aggregate.Refusals
import ExtentEngine.Proofs.Aggregate.Remembering
import ExtentEngine.Proofs.Aggregate.Rows
import ExtentEngine.Proofs.Aggregate.Spill
import ExtentEngine.Proofs.Aggregate.SpillCounts
import ExtentEngine.Proofs.Aggregate.SpillingRows
import ExtentEngine.Proofs.Aggregate.SpillingTable
import ExtentEngine.Proofs.Aggregate.Spreading
import ExtentEngine.Proofs.Aggregate.Table
import ExtentEngine.Proofs.Aggregate.UniqueKeys
import ExtentEngine.Proofs.Arity
import ExtentEngine.Proofs.Attempt
import ExtentEngine.Proofs.Binary64.Nearest
import ExtentEngine.Proofs.Binary64.Value
import ExtentEngine.Proofs.Dataset.Cursor
import ExtentEngine.Proofs.Dataset.Emission
import ExtentEngine.Proofs.Dataset.Faults
import ExtentEngine.Proofs.Dataset.Filling
import ExtentEngine.Proofs.Dataset.Outcomes
import ExtentEngine.Proofs.Dataset.Positions
import ExtentEngine.Proofs.Dataset.Refinement
import ExtentEngine.Proofs.Dataset.Reordering
import ExtentEngine.Proofs.Dataset.Replacing
import ExtentEngine.Proofs.Dataset.Resting
import ExtentEngine.Proofs.Dataset.SameExtents
import ExtentEngine.Proofs.Dataset.SortMarker
import ExtentEngine.Proofs.Dataset.Sorting
import ExtentEngine.Proofs.Dataset.Storage
import ExtentEngine.Proofs.Dataset.Success
import ExtentEngine.Proofs.Dataset.Traversal
import ExtentEngine.Proofs.Dataset.Typed
import ExtentEngine.Proofs.Dataset.Writing
import ExtentEngine.Proofs.Decimal.ReadBack
import ExtentEngine.Proofs.Disk.Frame
import ExtentEngine.Proofs.Disk.Leftovers
import ExtentEngine.Proofs.Disk.Lines
import ExtentEngine.Proofs.Disk.Listing
import ExtentEngine.Proofs.Disk.Owners
import ExtentEngine.Proofs.Disk.RoundTrip
import ExtentEngine.Proofs.Expr.Formula
import ExtentEngine.Proofs.Expr.KeyEquality
import ExtentEngine.Proofs.Expr.Kleene
import ExtentEngine.Proofs.Expr.Predicate
import ExtentEngine.Proofs.Expr.Projection
import ExtentEngine.Proofs.Expr.Typing
import ExtentEngine.Proofs.Faults
import ExtentEngine.Proofs.Join.Conforming
import ExtentEngine.Proofs.Join.Declared
import ExtentEngine.Proofs.Join.Execute
import ExtentEngine.Proofs.Join.Faults
import ExtentEngine.Proofs.Join.HashTable
import ExtentEngine.Proofs.Join.InBounds
import ExtentEngine.Proofs.Join.JoinedPlaces
import ExtentEngine.Proofs.Join.KeyOrder
import ExtentEngine.Proofs.Join.Keyed
import ExtentEngine.Proofs.Join.MatchFlags
import ExtentEngine.Proofs.Join.MatchHistory
import ExtentEngine.Proofs.Join.NestedLoop
import ExtentEngine.Proofs.Join.Pairing
import ExtentEngine.Proofs.Join.Parts
import ExtentEngine.Proofs.Join.RowIndex
import ExtentEngine.Proofs.Join.SameOrder
import ExtentEngine.Proofs.Join.Sequence
import ExtentEngine.Proofs.Join.SortMerge
import ExtentEngine.Proofs.Join.Success.Execute
import ExtentEngine.Proofs.Join.Success.HashTable
import ExtentEngine.Proofs.Join.Success.NestedLoop
import ExtentEngine.Proofs.Join.Success.SortMerge
import ExtentEngine.Proofs.Join.Success.Tests
import ExtentEngine.Proofs.Join.Success.Works
import ExtentEngine.Proofs.Join.TupleOrder
import ExtentEngine.Proofs.Json.Cuts
import ExtentEngine.Proofs.Json.Lexemes
import ExtentEngine.Proofs.Json.Shape
import ExtentEngine.Proofs.Json.Values
import ExtentEngine.Proofs.Lists
import ExtentEngine.Proofs.Lockstep
import ExtentEngine.Proofs.Partition.Agreement
import ExtentEngine.Proofs.Partition.Coverage
import ExtentEngine.Proofs.Partition.HandedOver
import ExtentEngine.Proofs.Partition.Handouts
import ExtentEngine.Proofs.Partition.InTurn
import ExtentEngine.Proofs.Partition.Interleaving
import ExtentEngine.Proofs.Partition.Recording
import ExtentEngine.Proofs.Plan.Agreement
import ExtentEngine.Proofs.Plan.Interleaved
import ExtentEngine.Proofs.Plan.Merge
import ExtentEngine.Proofs.Plan.OnePartition
import ExtentEngine.Proofs.Plan.Output
import ExtentEngine.Proofs.Plan.Partitioned
import ExtentEngine.Proofs.Plan.Serial
import ExtentEngine.Proofs.Plan.Worker
import ExtentEngine.Proofs.Record.Codec
import ExtentEngine.Proofs.Record.Order
import ExtentEngine.Proofs.Record.StableSort
import ExtentEngine.Proofs.Scalar.Codec
import ExtentEngine.Proofs.Scalar.Laws
import ExtentEngine.Proofs.Scalar.Numeric
import ExtentEngine.Proofs.Scalar.Order
import ExtentEngine.Record.Basic
import ExtentEngine.Record.Codec
import ExtentEngine.Record.Schema
import ExtentEngine.Record.Terse
import ExtentEngine.Register
import ExtentEngine.Report
import ExtentEngine.Scalar.Basic
import ExtentEngine.Scalar.Codec
import ExtentEngine.Scalar.Format
import ExtentEngine.Scalar.Terse
import ExtentEngine.Step
import ExtentEngine.Text.Digits
import ExtentEngine.Text.Quoted
