import EntityStore.Condition.Basic
import EntityStore.Entity.Schema

/-!
# Filters

A filter decides for each record whether it matches, or fails.  Filters join from left to right:
the second is not asked when the first has decided.
-/

namespace EntityStore

abbrev Filter := Record → Except Failure Bool

namespace Filter

def always : Filter := fun _ => .ok true

def and (f g : Filter) : Filter := fun r => do if ← f r then g r else pure false

def or (f g : Filter) : Filter := fun r => do if ← f r then pure true else g r

def not (f : Filter) : Filter := fun r => do pure !(← f r)

def join : Conjunction → Filter → Filter → Filter
  | .and => and
  | .or => or

/-- A range operator: `null` is in no range, and a value of another kind than the operand cannot be
placed. -/
def inRange (operator : Operator) (operand : Value) (accessor : Accessor) : Filter := fun r =>
  let v := accessor.read r
  if v.isNull then .ok false
  else if v.kind ≠ operand.kind then
    .error (.rangeKind accessor.name v.kind operator operand.kind)
  else (v.compare operand).map operator.admits

/-- Compares an attribute with an operand.  No operand may be `null`, and membership asks for a
list. -/
def compare (operator : Operator) (operand : Value) (accessor : Accessor) :
    Except Failure Filter :=
  if operand.isNull then .error (.nullOperand operator accessor.name)
  else match operator with
    | .eq => .ok fun r => .ok (accessor.read r = operand)
    | .isIn =>
      match operand with
      | .list members => .ok fun r => .ok (members.contains (accessor.read r))
      | other => .error (.listRequired accessor.name other.kind)
    | range => .ok (inRange range operand accessor)

/-- The filter on the instances of a type; other records do not match. -/
def onInstances (schema : Schema) (f : Filter) : Filter := fun r =>
  if schema.isInstance r then f r else .ok false

/-- The records that match, in order; the first failure is the result. -/
def select (f : Filter) : List Record → Except Failure (List Record)
  | [] => .ok []
  | r :: rs => do
    if ← f r then
      pure (r :: (← select f rs))
    else select f rs

end Filter

end EntityStore
