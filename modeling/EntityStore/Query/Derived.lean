import EntityStore.Condition.Binding
import EntityStore.MethodName.Query
import EntityStore.Query.Argument
import EntityStore.Query.Result
import EntityStore.Storage.Store

/-!
# Derived queries

A method name is compiled once against a schema: all fields that it names must exist.  A call binds
the values among its arguments to the parameters, in order, and then filters, sorts, takes a window
and adapts what was found to the shape of the method.

    filter: instances of the type that satisfy the condition
    sort:   by the keys in the name, then by those among the arguments
    window: the first page request among the arguments, if any
-/

namespace EntityStore

structure DerivedQuery where
  method : String
  kind : MethodKind
  shape : ResultShape
  /-- No condition means all instances of the type. -/
  condition : Option Condition
  sorts : List SortKey
  schema : Schema

namespace DerivedQuery

/-! ## Compiling -/

/-- The query of a method name.  The condition is checked before the sort keys. -/
def compile (method : String) (shape : ResultShape) (schema : Schema) :
    Except Failure DerivedQuery :=
  if MethodKind.classify method false = .findAll then
    .ok ⟨method, .findAll, shape, none, [], schema⟩
  else do
    let parsed ← MethodQuery.parse method
    parsed.condition.checkFields schema
    let _ ← SortKey.comparators schema parsed.sorts
    pure ⟨method, parsed.kind, shape, some parsed.condition, parsed.sorts, schema⟩

/-- Number of values that a call must bring. -/
def parameterCount (q : DerivedQuery) : Nat :=
  match q.condition with
  | some c => c.parameterCount
  | none => 0

/-! ## Running -/

/-- The filter of a call. -/
def filter (q : DerivedQuery) (args : List Argument) : Except Failure Filter :=
  match q.condition with
  | some c => c.recordFilter q.schema (Argument.values args)
  | none => .ok (Filter.always.onInstances q.schema)

/-- The page that a call asks for; a query for a page has a standard one. -/
def requestedPage (q : DerivedQuery) (args : List Argument) (standardSize : UInt64) :
    Except Failure (Option PageRequest) :=
  match Argument.firstPage? args with
  | some request => .ok (some request)
  | none =>
    if q.shape = .page then (PageRequest.ofSize standardSize).map some else .ok none

/-- The records that a call finds, and the page that it asks for. -/
def find (q : DerivedQuery) (f : Filter) (args : List Argument) (s : Store) :
    Except Failure (List Record × Option PageRequest) := do
  let comparators ← SortKey.recordComparators q.schema (q.sorts ++ Argument.allSortKeys args)
  let request ← q.requestedPage args s.settings.defaultPageSize
  let (skip, limit) := match request with
    | some r => (r.skip, r.size.toNat)
    | none => (0, 0)
  let records ← s.select f comparators skip limit
  pure (records, request)

/-- What a query that finds records answers. -/
def answer (q : DerivedQuery) (args : List Argument) (f : Filter) (s : Store) :
    Except Failure QueryResult := do
  let (records, request) ← q.find f args s
  match q.kind with
  | .derivedCount => pure (.count records.length)
  | .derivedExists => pure (.boolean (!records.isEmpty))
  | _ =>
    let request ← match request with
      | some r => pure r
      | none => PageRequest.ofSize s.settings.defaultPageSize
    pure (.adapt q.schema q.shape (q.schema.instances records) request)

/-- Runs a call on a store. -/
def execute (q : DerivedQuery) (args : List Argument) : StoreM QueryResult := do
  let f ← Store.settled (q.filter args)
  if q.kind = .derivedDelete then
    let removed ← Store.removeWhere f
    pure (if q.shape = .count then .count removed else .unit)
  else Store.look (q.answer args f)

end DerivedQuery

end EntityStore
