import SqlEngine.Calendar.Date
import SqlEngine.Calendar.Instant
import SqlEngine.Calendar.Spelling
import SqlEngine.Condition.Pattern
import SqlEngine.Condition.Truth
import SqlEngine.Condition.CompiledPattern
import SqlEngine.Condition.Cache
import SqlEngine.Dialect.Grammar
import SqlEngine.Dialect.Lexeme
import SqlEngine.Dialect.Reader
import SqlEngine.Dialect.Scan
import SqlEngine.Dialect.Split
import SqlEngine.Dialect.Statement
import SqlEngine.Engine
import SqlEngine.Execution.Definition
import SqlEngine.Execution.Modification
import SqlEngine.Execution.Output
import SqlEngine.Execution.Selection
import SqlEngine.Execution.Staging
import SqlEngine.Execution.Statement
import SqlEngine.Failure
import SqlEngine.Index.Build
import SqlEngine.Index.Search
import SqlEngine.Index.Tree
import SqlEngine.Json.Document
import SqlEngine.Json.Layout
import SqlEngine.Json.Scalar
import SqlEngine.Limits.Configuration
import SqlEngine.Limits.Deadline
import SqlEngine.Limits.RateLimiter
import SqlEngine.Main
import SqlEngine.Number.Binary64
import SqlEngine.Number.Decimal
import SqlEngine.Number.Word
import SqlEngine.Relation.Aggregate
import SqlEngine.Relation.Distinct
import SqlEngine.Relation.Group
import SqlEngine.Relation.Join
import SqlEngine.Relation.Scope
import SqlEngine.Row
import SqlEngine.Schema
import SqlEngine.Schema.Coercion
import SqlEngine.Schema.Settlement
import SqlEngine.Shell.Action
import SqlEngine.Shell.Envelope
import SqlEngine.Shell.Grid
import SqlEngine.Shell.Options
import SqlEngine.Shell.Transcript
import SqlEngine.Sorting.Merge
import SqlEngine.Sorting.Run
import SqlEngine.Sorting.Sort
import SqlEngine.Store.Outage
import SqlEngine.Store.Script
import SqlEngine.Store.State
import SqlEngine.Text.Blank
import SqlEngine.Text.CaseTable
import SqlEngine.Text.Lowercase
import SqlEngine.Value
import SqlEngine.Proofs.Store.Numbering
import SqlEngine.Proofs.Store.Writes
import SqlEngine.Proofs.Store.History
import SqlEngine.Proofs.Store.Maps
import SqlEngine.Proofs.Script.Reading
import SqlEngine.Proofs.Script.Steady
import SqlEngine.Proofs.Script.Trace
import SqlEngine.Proofs.Success
import SqlEngine.Proofs.Execution.Reading
import SqlEngine.Proofs.Execution.Settled
import SqlEngine.Proofs.Entries
import SqlEngine.Proofs.Equality
import SqlEngine.Proofs.Alike
import SqlEngine.Proofs.Execution.Staging
import SqlEngine.Proofs.Execution.Effect
import SqlEngine.Proofs.Execution.Change
import SqlEngine.Proofs.Execution.Run
import SqlEngine.Proofs.Engine.Execute
import SqlEngine.Proofs.Engine.Reachable
import SqlEngine.Proofs.Engine.Log
import SqlEngine.Proofs.Constraint.Typed
import SqlEngine.Proofs.Constraint.Unique
import SqlEngine.Proofs.Constraint.Quota
import SqlEngine.Proofs.Dialect.Declaration
import SqlEngine.Proofs.Dialect.Rendering
import SqlEngine.Proofs.Dialect.Cutting
import SqlEngine.Proofs.Dialect.Recognition
import SqlEngine.Proofs.Dialect.Phrases
import SqlEngine.Proofs.Dialect.Conditions
import SqlEngine.Proofs.Dialect.Query
import SqlEngine.Proofs.Dialect.RoundTrip
import SqlEngine.Proofs.Execution.Values
import SqlEngine.Proofs.Constraint.NotNull
import SqlEngine.Proofs.Engine.Failure
import SqlEngine.Proofs.Index.Search
import SqlEngine.Proofs.Index.Shape
import SqlEngine.Proofs.Index.Subtree
import SqlEngine.Proofs.Index.Insertion
import SqlEngine.Proofs.Index.Valid
import SqlEngine.Proofs.Index.Reading
import SqlEngine.Proofs.Index.Dictionary
import SqlEngine.Proofs.Index.Invariant
import SqlEngine.Proofs.Constraint.Schema
import SqlEngine.Proofs.Condition.Pattern
import SqlEngine.Proofs.Condition.Comparison
import SqlEngine.Proofs.Condition.CompiledPattern
import SqlEngine.Proofs.Condition.Cache
import SqlEngine.Proofs.Index.Catalog
import SqlEngine.Proofs.Index.Mapping
import SqlEngine.Proofs.Index.Relabel
import SqlEngine.Proofs.Execution.Frame
import SqlEngine.Proofs.Execution.Alike
import SqlEngine.Proofs.Execution.Twins
import SqlEngine.Proofs.Execution.Agreement
import SqlEngine.Proofs.Engine.Frame
import SqlEngine.Proofs.Engine.History
import SqlEngine.Proofs.Engine.Indexes
import SqlEngine.Proofs.Engine.Agreement
import SqlEngine.Proofs.Lists
import SqlEngine.Proofs.Sorting.Stable
import SqlEngine.Proofs.Sorting.Short
import SqlEngine.Proofs.Sorting.Runs
import SqlEngine.Proofs.Sorting.Sort
import SqlEngine.Proofs.Sorting.Permutation
import SqlEngine.Proofs.Relation.Sorted
import SqlEngine.Proofs.Relation.Plain
import SqlEngine.Proofs.Relation.Group
import SqlEngine.Proofs.Relation.Join
import SqlEngine.Proofs.Relation.Names
import SqlEngine.Proofs.Relation.Resolution
import SqlEngine.Proofs.Relation.Check
import SqlEngine.Proofs.Execution.Joined
import SqlEngine.Proofs.Execution.Tuples
import SqlEngine.Proofs.Engine.Selection
import SqlEngine.Proofs.Engine.Grouping
import SqlEngine.Proofs.Engine.Lookup
import SqlEngine.Proofs.Engine.InnerJoin
import SqlEngine.Proofs.Engine.Meant
import SqlEngine.Proofs.Limits.Pacing
import SqlEngine.Proofs.Number.Rounding
import SqlEngine.Proofs.Number.Shortest
import SqlEngine.Proofs.Number.Decimal
import SqlEngine.Proofs.Order
import SqlEngine.Proofs.Json.Real
import SqlEngine.Proofs.Json.Scalar
import SqlEngine.Proofs.Relation.Distinct
import SqlEngine.Proofs.Engine.Distinct
import SqlEngine.Proofs.Index.Key
import SqlEngine.Proofs.Index.Building
import SqlEngine.Proofs.Index.Outcome
import SqlEngine.Proofs.Dialect.Scanning
import SqlEngine.Proofs.Dialect.Splitting
import SqlEngine.Proofs.Dialect.Shifting
import SqlEngine.Proofs.Dialect.Filling
import SqlEngine.Proofs.Dialect.Spans
import SqlEngine.Proofs.Dialect.Lookahead
import SqlEngine.Proofs.Dialect.Splice
import SqlEngine.Proofs.Dialect.Places
import SqlEngine.Proofs.Dialect.Respelling
import SqlEngine.Proofs.Dialect.Exchange
import SqlEngine.Proofs.Dialect.Quoting
import SqlEngine.Proofs.Execution.Insertion
import SqlEngine.Proofs.Execution.Answer
import SqlEngine.Proofs.Execution.Generated
import SqlEngine.Proofs.Execution.Steady
import SqlEngine.Proofs.Engine.Insertion
import SqlEngine.Proofs.Engine.Literal
import SqlEngine.Proofs.Engine.OneByOne
import SqlEngine.Proofs.Text.Blank
import SqlEngine.Proofs.Number.Whole
import SqlEngine.Proofs.Relation.Aggregate
import SqlEngine.Proofs.Schema.Coercion
import SqlEngine.Proofs.Number.Digits
import SqlEngine.Proofs.Calendar.Date
import SqlEngine.Proofs.Calendar.Text
import SqlEngine.Proofs.Calendar.Spelling
import SqlEngine.Proofs.Calendar.Rereading
import SqlEngine.Proofs.Schema.Dates
import SqlEngine.Proofs.Schema.Stability
import SqlEngine.Proofs.Schema.Settlement
import SqlEngine.Proofs.Engine.Repetition
import SqlEngine.Proofs.Dialect.Verdicts
import SqlEngine.Proofs.Dialect.Composition
import SqlEngine.Proofs.Dialect.Operands
import SqlEngine.Proofs.Dialect.Nesting
import SqlEngine.Proofs.Dialect.Clauses
import SqlEngine.Proofs.Dialect.Definitions
import SqlEngine.Proofs.Dialect.Tables
import SqlEngine.Proofs.Dialect.Rejection
import SqlEngine.Proofs.Dialect.Naming
import SqlEngine.Proofs.Dialect.Reader
import SqlEngine.Proofs.Relation.Calls
import SqlEngine.Proofs.Engine.Calls
import SqlEngine.Proofs.Engine.Breaking
import SqlEngine.Proofs.Engine.Numbers
import SqlEngine.Proofs.Index.Height
import SqlEngine.Proofs.Number.Arithmetic
import SqlEngine.Proofs.Limits.Tracking
import SqlEngine.Proofs.Limits.Advice
import SqlEngine.Proofs.Limits.Windows
