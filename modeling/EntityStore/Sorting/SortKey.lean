import EntityStore.Entity.Schema
import EntityStore.Json.Fields

/-!
# Sort keys

A sort key names a property and a direction.  On a schema it is a comparator of instances; of a
row of comparators a later one only breaks the ties of the earlier ones.
-/

namespace EntityStore

inductive Direction
  | asc
  | desc
deriving DecidableEq, Inhabited

def Direction.name : Direction → String
  | asc => "Asc"
  | desc => "Desc"

def Direction.ofName? (name : List Char) : Option Direction :=
  if name = Direction.asc.name.toList then some .asc
  else if name = Direction.desc.name.toList then some .desc
  else none

structure SortKey where
  property : String
  direction : Direction
deriving DecidableEq, Inhabited

/-- Tells how two records are ordered, or fails. -/
abbrev Comparator := Record → Record → Except Failure Ordering

namespace Comparator

/-- The first comparator that tells two records apart decides. -/
def chain : List Comparator → Comparator
  | [], _, _ => .ok .eq
  | c :: cs, a, b =>
    match c a b with
    | .ok .eq => chain cs a b
    | other => other

/-- The comparator on the instances of a type; no other records can be ordered. -/
def onInstances (schema : Schema) (c : Comparator) : Comparator := fun a b =>
  if schema.isInstance a && schema.isInstance b then c a b else .error (.foreignOrder schema.name)

end Comparator

namespace SortKey

def comparator (schema : Schema) (key : SortKey) : Except Failure Comparator :=
  (schema.resolve key.property).map fun accessor =>
    match key.direction with
    | .asc => accessor.ascending
    | .desc => accessor.descending

/-- The comparators of all keys; the first key is the main one. -/
def comparators (schema : Schema) (keys : List SortKey) : Except Failure (List Comparator) :=
  keys.mapM (comparator schema)

/-- What records of one type are to be sorted by: nothing where there is no key. -/
def recordComparators (schema : Schema) (keys : List SortKey) :
    Except Failure (List Comparator) :=
  if keys.isEmpty then .ok []
  else (comparators schema keys).map fun cs =>
    [Comparator.onInstances schema (Comparator.chain cs)]

/-! ## Documents -/

def fieldNames : List String := ["property", "direction"]

def toDocument (key : SortKey) : Json :=
  .ofMembers [("property", .ofText key.property),
    ("direction", .ofText key.direction.name)]

def ofDocument? (doc : Json) : Option SortKey :=
  match doc.fields? fieldNames with
  | some [some property, some direction] => do
    pure ⟨← property.text?, ← Direction.ofName? (← direction.name?)⟩
  | _ => none

def parse? (s : String) : Option SortKey := (Json.parse? s).bind ofDocument?

end SortKey

end EntityStore
