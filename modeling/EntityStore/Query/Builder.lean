import EntityStore.Condition.Binding
import EntityStore.Storage.Store

/-!
# Queries built step by step

A condition is built by selecting a field, perhaps negating the next comparison, and comparing.  The
operand of each comparison is at hand, so a comparison that cannot be bound is refused at once; the
first comparison starts the condition and each further one is combined with it.
-/

namespace EntityStore

/-- A condition being built. -/
structure ConditionBuilder where
  schema : Schema
  condition : Option Condition := none
  /-- The field that the next comparison is about; it stays selected after the comparison. -/
  field : Option String := none
  /-- How the next comparison is joined. -/
  conjunction : Conjunction := .and
  negated : Bool := false

namespace ConditionBuilder

def target (b : ConditionBuilder) (field : String) (k : Conjunction) : ConditionBuilder :=
  { b with field := some field, conjunction := k }

/-- Negates the next comparison. -/
def negate (b : ConditionBuilder) : ConditionBuilder := { b with negated := true }

/-- The condition with one more part. -/
def extend (condition : Option Condition) (k : Conjunction) (leaf : Condition) : Condition :=
  match condition with
  | none => leaf
  | some c => c.combine k leaf

/-- Adds a comparison of the selected field. -/
def compare (b : ConditionBuilder) (operator : Operator) (operand : Value) :
    Except Failure ConditionBuilder :=
  match b.field with
  | none => .error .noFieldSelected
  | some field => do
    let accessor ← b.schema.resolve field
    let _ ← Filter.compare operator operand accessor
    let leaf := Condition.comparison accessor.name operator (.literal operand)
    let leaf := if b.negated then .neg leaf else leaf
    pure { b with condition := some (extend b.condition b.conjunction leaf), negated := false }

/-- Ranges with two ends are not offered. -/
def between (_ : ConditionBuilder) (_ _ : Value) : Except Failure ConditionBuilder :=
  .error .rangeQuery

/-- Patterns are not offered. -/
def like (_ : ConditionBuilder) (_ : Value) : Except Failure ConditionBuilder :=
  .error .patternQuery

/-- The filter on records; without a condition all instances match. -/
def filter (b : ConditionBuilder) : Except Failure Filter :=
  match b.condition with
  | none => .ok (Filter.always.onInstances b.schema)
  | some c => c.recordFilter b.schema []

end ConditionBuilder

/-! ## Selections -/

structure Selection where
  builder : ConditionBuilder
  sorts : List SortKey := []
  skip : Nat := 0
  /-- Zero means no limit. -/
  limit : Nat := 0

namespace Selection

/-- One more sort key. -/
def orderBy (q : Selection) (field : String) (direction : Direction) :
    Except Failure Selection := do
  let accessor ← q.builder.schema.resolve field
  pure { q with sorts := q.sorts ++ [⟨accessor.name, direction⟩] }

/-- All that is selected. -/
def result (q : Selection) (s : Store) : Except Failure (List Record) := do
  let f ← q.builder.filter
  let comparators ← SortKey.recordComparators q.builder.schema q.sorts
  let records ← s.select f comparators q.skip q.limit
  pure (q.builder.schema.instances records)

/-- What is selected, if it is at most one record. -/
def singleResult (q : Selection) (s : Store) : Except Failure (Option Record) := do
  let records ← q.result s
  if 1 < records.length then .error (.ambiguousResult q.builder.schema.name records.length)
  else pure records.head?

end Selection

/-! ## Removals -/

/-- Drops all instances that a built condition matches. -/
def ConditionBuilder.removeAll (b : ConditionBuilder) : StoreM Nat := do
  let f ← Store.settled b.filter
  Store.removeWhere f

end EntityStore
