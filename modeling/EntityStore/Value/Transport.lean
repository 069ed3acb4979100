import EntityStore.Json.Fields
import EntityStore.Value.Basic

/-!
# Values as documents

A value is transported as an object whose only member names its kind, and `null` as the name
alone.  Floats keep their value but not a NaN or an infinity, which are written `null` and not
read back.  Documents nested deeper than `maxDepth` are refused.
-/

namespace EntityStore.Value

/-! ## Writing -/

def floatDocument (x : Binary64) : Json :=
  if x.isFinite then .number (FloatNotation.document.numeral x) else .null

mutual

def transport : Value → Json
  | null => .ofText "Null"
  | integer n => .tagged "Integer" (.number (Numeral.ofInt n.toInt))
  | float x => .tagged "Float" (floatDocument x)
  | text s => .tagged "Text" (.ofText s)
  | boolean b => .tagged "Boolean" (.boolean b)
  | date d => .tagged "Date" (.text (some d.chars))
  | list items => .tagged "List" (.array (transportAll items))

def transportAll : List Value → List Json
  | [] => []
  | v :: vs => transport v :: transportAll vs

end

/-! ## Reading -/

/-- How deep arrays and objects may be nested. -/
def maxDepth : Nat := 127

/-- A 64-bit integer. -/
def readInteger? (doc : Json) : Option Int64 := do
  let n ← doc.int?
  if Int64.minValue.toInt ≤ n ∧ n ≤ Int64.maxValue.toInt then some (Int64.ofInt n) else none

def readFloat? : Json → Option Binary64
  | .number n => n.toBinary64?
  | _ => none

def readDate? : Json → Option Date
  | .text (some s) => Date.ofChars? s
  | _ => none

def readNull? : Json → Option Unit
  | .null => some ()
  | _ => none

/-- The kind that a tag names. -/
def kindOfTag? (tag : List Char) : Option ValueKind :=
  if tag = "Null".toList then some .null
  else if tag = "Integer".toList then some .integer
  else if tag = "Float".toList then some .float
  else if tag = "Text".toList then some .text
  else if tag = "Boolean".toList then some .boolean
  else if tag = "Date".toList then some .date
  else if tag = "List".toList then some .list
  else none

mutual

def readTransport? : Json → Option Value
  | .text (some s) => if kindOfTag? s = some .null then some null else none
  | .object [(some tag, content)] =>
    match kindOfTag? tag with
    | some .null => (readNull? content).map fun _ => null
    | some .integer => (readInteger? content).map integer
    | some .float => (readFloat? content).map float
    | some .text => content.text?.map text
    | some .boolean => content.boolean?.map boolean
    | some .date => (readDate? content).map date
    | some .list => (readList? content).map list
    | none => none
  | _ => none

def readList? : Json → Option (List Value)
  | .array items => readAll? items
  | _ => none

def readAll? : List Json → Option (List Value)
  | [] => some []
  | doc :: docs => do
    let v ← readTransport? doc
    let vs ← readAll? docs
    pure (v :: vs)

end

/-- The value that a document transports. -/
def ofDocument? (doc : Json) : Option Value :=
  if doc.depth ≤ maxDepth then readTransport? doc else none

def parse? (s : String) : Option Value := (Json.parse? s).bind ofDocument?

end EntityStore.Value
