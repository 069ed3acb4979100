import EntityStore.Number.Notation
import EntityStore.Calendar.DateText

/-!
# Values

The values that attributes hold, and that records are filed under.  A value is of one of seven
kinds, and no kind converts to another.
-/

namespace EntityStore

inductive Value
  | null
  | integer (n : Int64)
  | float (x : Binary64)
  | text (s : String)
  | boolean (b : Bool)
  | date (d : Date)
  | list (items : List Value)
deriving Inhabited

inductive ValueKind
  | null
  | integer
  | float
  | text
  | boolean
  | date
  | list
deriving DecidableEq, Inhabited

namespace ValueKind

def name : ValueKind → String
  | null => "NULL"
  | integer => "INTEGER"
  | float => "FLOAT"
  | text => "TEXT"
  | boolean => "BOOLEAN"
  | date => "DATE"
  | list => "LIST"

/-- Position among the kinds in the total order of values; `null` is last. -/
def rank : ValueKind → Nat
  | integer => 0
  | float => 1
  | text => 2
  | boolean => 3
  | date => 4
  | list => 5
  | null => 6

end ValueKind

namespace Value

def kind : Value → ValueKind
  | null => .null
  | integer _ => .integer
  | float _ => .float
  | text _ => .text
  | boolean _ => .boolean
  | date _ => .date
  | list _ => .list

def isNull (v : Value) : Bool := v.kind = .null

def asInteger? : Value → Option Int64
  | integer n => some n
  | _ => none

def asText? : Value → Option String
  | text s => some s
  | _ => none

def asBoolean? : Value → Option Bool
  | boolean b => some b
  | _ => none

def asList? : Value → Option (List Value)
  | list items => some items
  | _ => none

/-- The value of an attribute that may be missing. -/
def ofOption : Option Value → Value
  | some v => v
  | none => null

/-! ## Text -/

mutual

/-- The value as shown to people: text without quotes, lists in brackets. -/
def render : Value → String
  | null => "NULL"
  | integer n => toString n.toInt
  | float x => x.text
  | text s => s
  | boolean b => if b then "true" else "false"
  | date d => d.text
  | list items => "[" ++ ", ".intercalate (renderAll items) ++ "]"

def renderAll : List Value → List String
  | [] => []
  | v :: vs => render v :: renderAll vs

end

theorem isNull_iff {v : Value} : v.isNull = true ↔ v = null := by
  cases v <;> simp [isNull, kind]

end Value

end EntityStore
