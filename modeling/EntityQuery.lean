import EntityQuery.Binary64.Basic
import EntityQuery.Binary64.Reading
import EntityQuery.Binary64.Rounding
import EntityQuery.Binary64.Shortest
import EntityQuery.Coercion
import EntityQuery.Compilation
import EntityQuery.Config.Basic
import EntityQuery.Config.Document
import EntityQuery.Config.Wire
import EntityQuery.Criteria.Operator
import EntityQuery.Criteria.Request
import EntityQuery.Criteria.Validation
import EntityQuery.Criteria.Wire
import EntityQuery.Failure
import EntityQuery.Join.Grouping
import EntityQuery.Join.Scope
import EntityQuery.Join.Search
import EntityQuery.Json.Number
import EntityQuery.Json.Record
import EntityQuery.Json.Token
import EntityQuery.Json.Tree
import EntityQuery.Like.Matching
import EntityQuery.Like.Pattern
import EntityQuery.Metrics.Counters
import EntityQuery.Metrics.Event
import EntityQuery.Metrics.Recorder
import EntityQuery.Metrics.Report
import EntityQuery.Paging.Page
import EntityQuery.Paging.PageRequest
import EntityQuery.Paging.Sorting
import EntityQuery.Path
import EntityQuery.Predicate.Basic
import EntityQuery.Predicate.Binding
import EntityQuery.Predicate.Evaluation
import EntityQuery.Predicate.Text
import EntityQuery.Proofs.Collect
import EntityQuery.Proofs.Counterparts
import EntityQuery.Proofs.Criteria.Combination
import EntityQuery.Proofs.Criteria.Contained
import EntityQuery.Proofs.Criteria.Meaning
import EntityQuery.Proofs.Criteria.Placement
import EntityQuery.Proofs.Criteria.Probe
import EntityQuery.Proofs.Criteria.Requests
import EntityQuery.Proofs.Criteria.Wire
import EntityQuery.Proofs.Join.Assignment
import EntityQuery.Proofs.Join.Chain
import EntityQuery.Proofs.Join.Grouping
import EntityQuery.Proofs.Join.History
import EntityQuery.Proofs.Join.Search
import EntityQuery.Proofs.Join.ToOne
import EntityQuery.Proofs.Json.Numbers
import EntityQuery.Proofs.Json.Reading
import EntityQuery.Proofs.Json.Records
import EntityQuery.Proofs.Like.Language
import EntityQuery.Proofs.Paging.Reading
import EntityQuery.Proofs.Predicate.Outcomes
import EntityQuery.Proofs.Predicate.Relocation
import EntityQuery.Proofs.Service.Merging
import EntityQuery.Proofs.Table.Selection
import EntityQuery.Proofs.Text.Casing
import EntityQuery.Proofs.Value.Kinds
import EntityQuery.Proofs.Value.Operands
import EntityQuery.Row
import EntityQuery.Schema
import EntityQuery.Service.Basic
import EntityQuery.Service.Session
import EntityQuery.Specification
import EntityQuery.StableSort
import EntityQuery.Table
import EntityQuery.Text.Blank
import EntityQuery.Text.CaseTable
import EntityQuery.Text.Hex
import EntityQuery.Text.Integer
import EntityQuery.Text.LowerCase
import EntityQuery.Text.Separated
import EntityQuery.Timestamp
import EntityQuery.Toml.Document
import EntityQuery.Toml.Token
import EntityQuery.Truth
import EntityQuery.Uuid
import EntityQuery.Value.Basic
import EntityQuery.Value.Order
import EntityQuery.Value.Raw
import EntityQuery.Proofs.Criteria.Opposites
import EntityQuery.Proofs.Criteria.Refusal
import EntityQuery.Proofs.Service.Mismatches
import EntityQuery.Proofs.Table.History
import EntityQuery.Proofs.Metrics.Tallies
import EntityQuery.Proofs.Service.Accounting
import EntityQuery.Proofs.Like.Walking
import EntityQuery.Proofs.Metrics.Entries
import EntityQuery.Proofs.Service.Charges
import EntityQuery.Proofs.Service.Scopes
import EntityQuery.Proofs.Criteria.Tokens
import EntityQuery.Proofs.Binary64.Rounding
import EntityQuery.Proofs.Value.Canonical
import EntityQuery.Proofs.StableSort
import EntityQuery.Proofs.Paging.Ordering
import EntityQuery.Proofs.Criteria.Membership
import EntityQuery.Proofs.Service.Membership
import EntityQuery.Proofs.Metrics.Reordering
import EntityQuery.Proofs.Path.Spelling
import EntityQuery.Proofs.Predicate.BoundTests
import EntityQuery.Proofs.Paging.SortPaths
import EntityQuery.Proofs.Join.Linking
import EntityQuery.Proofs.Predicate.Pruning
import EntityQuery.Proofs.Paging.SortColumns
import EntityQuery.Proofs.Predicate.Interchange
import EntityQuery.Proofs.Value.Spellings
import EntityQuery.Proofs.Service.Spellings
