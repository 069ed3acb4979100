import EntityStore.Entity.Schema
import EntityStore.Paging.Page
import EntityStore.Query.Shape
import EntityStore.Storage.Container

/-!
# Results of queries

A result is of one of ten kinds.  The records that a query found are adapted to the shape that was
asked for (`QueryResult.adapt`); whoever expects another kind is refused.
-/

namespace EntityStore

inductive QueryResult
  | stream (records : List Record)
  | list (records : List Record)
  /-- Records by identifier. -/
  | set (members : Container)
  | deque (records : List Record)
  | page (p : Page)
  | optional (record : Option Record)
  | single (record : Option Record)
  | boolean (b : Bool)
  | count (n : Nat)
  | unit

namespace QueryResult

/-- The records in the shape that is asked for; of records with one identifier a set keeps the
last. -/
def adapt (schema : Schema) (shape : ResultShape) (records : List Record) (request : PageRequest) :
    QueryResult :=
  match shape with
  | .stream => stream records
  | .list => list records
  | .set => set (.ofEntries (records.map fun r => (schema.identifier.read r, r)))
  | .deque => deque records
  | .page => page ⟨records, request⟩
  | .optional => optional records.head?
  | .boolean => boolean (!records.isEmpty)
  | .count => count records.length
  | .single => single records.head?

def kindName : QueryResult → String
  | stream _ => "stream"
  | list _ => "list"
  | set _ => "set"
  | deque _ => "deque"
  | page _ => "page"
  | optional _ => "optional"
  | single _ => "single"
  | boolean _ => "boolean"
  | count _ => "count"
  | unit => "unit"

/-! ## Expecting a kind -/

def unexpected {α : Type} (result : QueryResult) (expected : String) : Except Failure α :=
  .error (.unexpectedResult expected result.kindName)

/-- The records of any result that holds many. -/
def toList : QueryResult → Except Failure (List Record)
  | list records => .ok records
  | stream records => .ok records
  | deque records => .ok records
  | page p => .ok p.content
  | set members => .ok members.records
  | other => other.unexpected "collection"

def toSet : QueryResult → Except Failure Container
  | set members => .ok members
  | other => other.unexpected "set"

def toDeque : QueryResult → Except Failure (List Record)
  | deque records => .ok records
  | other => other.unexpected "deque"

def toStream : QueryResult → Except Failure (List Record)
  | stream records => .ok records
  | other => other.unexpected "stream"

def toPage : QueryResult → Except Failure Page
  | page p => .ok p
  | other => other.unexpected "page"

/-- The record of a result that holds at most one. -/
def toOptional : QueryResult → Except Failure (Option Record)
  | optional record => .ok record
  | single record => .ok record
  | other => other.unexpected "optional"

def toBoolean : QueryResult → Except Failure Bool
  | boolean b => .ok b
  | other => other.unexpected "boolean"

def toCount : QueryResult → Except Failure Nat
  | count n => .ok n
  | other => other.unexpected "count"

def isUnit : QueryResult → Bool
  | unit => true
  | _ => false

end QueryResult

end EntityStore
