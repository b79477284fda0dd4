import RecordQuery.DateTime
import RecordQuery.Inspect
import RecordQuery.Proofs.Sql.Aligned
import RecordQuery.Proofs.Steps
import RecordQuery.Provider
import RecordQuery.Schema.Tables
import RecordQuery.Store.Connection
import RecordQuery.Proofs.Emission.Edit
import RecordQuery.Proofs.Emission.Planning
import RecordQuery.Proofs.Emission.Compiling
import RecordQuery.Proofs.Emission.Action
import RecordQuery.Proofs.Placeholders
import RecordQuery.Proofs.Emission.Serving
import RecordQuery.Proofs.Emission.Grouping
import RecordQuery.Proofs.Lockstep
import RecordQuery.Proofs.Likeness
import RecordQuery.Proofs.Likeness.Planning
import RecordQuery.Proofs.Likeness.Compiling
import RecordQuery.Proofs.Likeness.Serving
import RecordQuery.Proofs.Shape
import RecordQuery.Proofs.Likeness.Exact
import RecordQuery.Proofs.Caching.Answer
import RecordQuery.Proofs.Caching.Fuel
import RecordQuery.Proofs.Caching.Session
import RecordQuery.Proofs.Caching.Serving
import RecordQuery.Proofs.Caching.Key
import RecordQuery.Proofs.Transparency
import RecordQuery.Proofs.NestedCheck
import RecordQuery.Proofs.Joining.Destination
import RecordQuery.Proofs.Joining.Step
import RecordQuery.Proofs.Joining.Resolution
import RecordQuery.Proofs.Joining.Scope
import RecordQuery.Proofs.Selection.Amending
import RecordQuery.Proofs.Selection.GroupKeys
import RecordQuery.Proofs.Joining.Segments
import RecordQuery.Proofs.Joining.Tree
import RecordQuery.Proofs.Joining.Reuse
import RecordQuery.Proofs.Evolution
import RecordQuery.Proofs.Joining.Outer
import RecordQuery.Proofs.Confinement
import RecordQuery.Proofs.FailFast
import RecordQuery.Proofs.Isolation
import RecordQuery.Proofs.Correlation
import RecordQuery.Proofs.Criteria.Once
import RecordQuery.Proofs.Criteria.Depth
import RecordQuery.Proofs.Caching.Interleaving
import RecordQuery.Proofs.Caching.Traffic
import RecordQuery.Proofs.Caching.Sequence
import RecordQuery.Proofs.Caching.Safety
import RecordQuery.Proofs.Caching.Invalidation
import RecordQuery.Proofs.Criteria.Counting
import RecordQuery.Proofs.Siblings.Chain
import RecordQuery.Proofs.Siblings.Settled
import RecordQuery.Proofs.Siblings.Exhaustion
import RecordQuery.Proofs.Siblings.Termination
import RecordQuery.Proofs.Meaning.Lexeme
import RecordQuery.Proofs.Meaning.Grammar
import RecordQuery.Proofs.Meaning.Rendering
import RecordQuery.Proofs.Meaning.Clause
import RecordQuery.Proofs.Criteria.Any
import RecordQuery.Proofs.Storage.Tables
import RecordQuery.Proofs.Storage.Origin
import RecordQuery.Proofs.Storage.Coverage
import RecordQuery.Proofs.Storage.Reading
import RecordQuery.Proofs.Storage.Tracing
import RecordQuery.Proofs.Storage.Compiling
import RecordQuery.Proofs.Storage.Identifier
import RecordQuery.Proofs.Criteria.Grouped
import RecordQuery.Proofs.Joining.Laying
import RecordQuery.Proofs.Joining.Ranging
import RecordQuery.Proofs.Selection.Aggregates
import RecordQuery.Proofs.Criteria.Nulls
import RecordQuery.Proofs.Meaning.Membership
import RecordQuery.Proofs.Meaning.Folding
import RecordQuery.Proofs.Nesting.Unflattening
import RecordQuery.Proofs.Sql.Quoting
import RecordQuery.Proofs.Paging
import RecordQuery.Proofs.Record.Coercion
import RecordQuery.Proofs.Record.Denormalizing
import RecordQuery.Proofs.Selection.Choices
import RecordQuery.Proofs.Selection.Handlers
import RecordQuery.Proofs.NestedDepth
