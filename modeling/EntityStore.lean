import EntityStore.Calendar.Date
import EntityStore.Calendar.DateText
import EntityStore.Condition.Basic
import EntityStore.Condition.Binding
import EntityStore.Condition.Filter
import EntityStore.Condition.Operator
import EntityStore.Entity.Catalog
import EntityStore.Entity.Declaration
import EntityStore.Entity.Record
import EntityStore.Entity.Schema
import EntityStore.Failure
import EntityStore.Json.Document
import EntityStore.Json.Fields
import EntityStore.Json.Quoted
import EntityStore.Json.Token
import EntityStore.MethodName.Clause
import EntityStore.MethodName.Kind
import EntityStore.MethodName.Query
import EntityStore.MethodName.Words
import EntityStore.Number.Binary64
import EntityStore.Number.Notation
import EntityStore.Number.Numeral
import EntityStore.Number.Reading
import EntityStore.Number.Shortest
import EntityStore.Paging.Page
import EntityStore.Paging.PageRequest
import EntityStore.Query.Argument
import EntityStore.Query.Builder
import EntityStore.Query.Chain
import EntityStore.Query.Derived
import EntityStore.Query.Result
import EntityStore.Query.Shape
import EntityStore.Repository.BaseVocabulary
import EntityStore.Repository.Basic
import EntityStore.Settings
import EntityStore.Sorting.Asking
import EntityStore.Sorting.Driftsort
import EntityStore.Sorting.SmallSort
import EntityStore.Sorting.SortKey
import EntityStore.Sorting.StableSort
import EntityStore.Storage.Commit
import EntityStore.Storage.Container
import EntityStore.Storage.Store
import EntityStore.Text.Blank
import EntityStore.Text.Hexadecimal
import EntityStore.Text.LetterCase
import EntityStore.TypedAccess
import EntityStore.Value.Basic
import EntityStore.Value.Collection
import EntityStore.Value.Comparison
import EntityStore.Value.TotalOrder
import EntityStore.Value.Transport
import EntityStore.Proofs.Calendar.DateText
import EntityStore.Proofs.Condition.Arguments
import EntityStore.Proofs.Condition.Comparisons
import EntityStore.Proofs.Condition.LeftSpine
import EntityStore.Proofs.Condition.LeftToRight
import EntityStore.Proofs.Condition.Operators
import EntityStore.Proofs.Condition.Twins
import EntityStore.Proofs.Entity.Lookup
import EntityStore.Proofs.Json.Document
import EntityStore.Proofs.Json.Tokens
import EntityStore.Proofs.MethodName.Criteria
import EntityStore.Proofs.MethodName.Division
import EntityStore.Proofs.MethodName.Grammar
import EntityStore.Proofs.MethodName.Lead
import EntityStore.Proofs.MethodName.Ordering
import EntityStore.Proofs.MethodName.Rendering
import EntityStore.Proofs.Number.Numeral
import EntityStore.Proofs.Outcome
import EntityStore.Proofs.Paging.Pages
import EntityStore.Proofs.Paging.Requests
import EntityStore.Proofs.Query.AttributeNames
import EntityStore.Proofs.Query.BuiltConditions
import EntityStore.Proofs.Query.CallByCall
import EntityStore.Proofs.Query.DerivedFind
import EntityStore.Proofs.Query.EnumerationOrder
import EntityStore.Proofs.Query.Reductions
import EntityStore.Proofs.Query.SameBody
import EntityStore.Proofs.Query.Selection
import EntityStore.Proofs.Query.Sets
import EntityStore.Proofs.Query.StandardSize
import EntityStore.Proofs.Query.Twins
import EntityStore.Proofs.Repository.DeleteAll
import EntityStore.Proofs.Repository.Filing
import EntityStore.Proofs.Repository.Identifiers
import EntityStore.Proofs.Repository.Table
import EntityStore.Proofs.Sorting.BothEnds
import EntityStore.Proofs.Sorting.Comparable
import EntityStore.Proofs.Sorting.KeyOrder
import EntityStore.Proofs.Sorting.Quicksort
import EntityStore.Proofs.Sorting.Rearrangement
import EntityStore.Proofs.Sorting.Runs
import EntityStore.Proofs.Sorting.SmallSort
import EntityStore.Proofs.Sorting.StableSort
import EntityStore.Proofs.Sorting.Truth
import EntityStore.Proofs.Storage.Atomic
import EntityStore.Proofs.Storage.Batch
import EntityStore.Proofs.Storage.EntryByEntry
import EntityStore.Proofs.Storage.Filing
import EntityStore.Proofs.Storage.FiniteMap
import EntityStore.Proofs.Storage.History
import EntityStore.Proofs.Storage.Mirror
import EntityStore.Proofs.Storage.Operation
import EntityStore.Proofs.Storage.Removal
import EntityStore.Proofs.Storage.Structure
import EntityStore.Proofs.Text.LetterCase
import EntityStore.Proofs.Value.Comparison
import EntityStore.Proofs.Value.NaturalOrder
import EntityStore.Proofs.Value.TotalOrder
import EntityStore.Proofs.Value.Transport
import EntityStore.Proofs.Query.TypeFailures
