import EntityStore.Value.Basic

/-!
# Records and the instances behind them

A record is a handle: which instance it denotes and the type that instance was made with.  Two
records denote the same instance exactly when they are equal.  What an instance holds is kept
apart, in `Instances`, so that a change to it is seen through every handle.
-/

namespace EntityStore

structure Record where
  id : Nat
  typeName : String
deriving DecidableEq, Inhabited

/-- The attribute values of every instance made so far; the instance numbered `n` is at position
`n`. -/
structure Instances where
  states : Array (List (String × Value)) := #[]
deriving Inhabited

namespace Instances

def state (instances : Instances) (record : Record) : List (String × Value) :=
  instances.states[record.id]?.getD []

/-- An attribute that an instance lacks reads as `null`. -/
def read (instances : Instances) (record : Record) (name : String) : Value :=
  Value.ofOption ((instances.state record).lookup name)

/-- A new instance, different from all others. -/
def make (instances : Instances) (typeName : String) (values : List (String × Value)) :
    Record × Instances :=
  (⟨instances.states.size, typeName⟩, ⟨instances.states.push values⟩)

/-- New instances, each of a type and with its values. -/
def makeAll (instances : Instances) :
    List (String × List (String × Value)) → List Record × Instances
  | [] => ([], instances)
  | (typeName, values) :: rest =>
    let (record, instances) := instances.make typeName values
    let (records, instances) := makeAll instances rest
    (record :: records, instances)

/-- The values with one of them replaced or added. -/
def assign (values : List (String × Value)) (name : String) (v : Value) : List (String × Value) :=
  match values with
  | [] => [(name, v)]
  | (n, w) :: rest => if n = name then (n, v) :: rest else (n, w) :: assign rest name v

/-- Changes an attribute of an instance in place. -/
def write (instances : Instances) (record : Record) (name : String) (v : Value) : Instances :=
  ⟨instances.states.modify record.id (assign · name v)⟩

end Instances

end EntityStore
