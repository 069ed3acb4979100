import EntityStore.Json.Document

/-!
# Records and names in documents

A record of named fields may be given as an object, where unknown names are passed over and a
known name stands at most once, or as an array of its fields in order, of which the last ones may
be missing.
-/

namespace EntityStore.Json

/-- What stands under each of the given names: `none` where the name is missing. -/
def fieldsOfMembers? (names : List String) (members : List (Option (List Char) × Json)) :
    Option (List (Option Json)) :=
  if members.any (fun m => m.1.isNone) then none
  else if names.any (fun n => 1 < members.countP (fun m => m.1 = some n.toList)) then none
  else some (names.map fun n => (members.find? fun m => m.1 = some n.toList).map (·.2))

def fieldsOfItems? (names : List String) (items : List Json) : Option (List (Option Json)) :=
  if names.length < items.length then none
  else some (items.map some ++ List.replicate (names.length - items.length) none)

/-- The fields of a record, in the order of `names`. -/
def fields? (names : List String) : Json → Option (List (Option Json))
  | object members => fieldsOfMembers? names members
  | array items => fieldsOfItems? names items
  | _ => none

/-- One of a set of names: a text, or an object whose only member has that name and holds
`null`. -/
def name? : Json → Option (List Char)
  | text s => s
  | object [(name, null)] => name
  | _ => none

def text? : Json → Option String
  | text (some s) => some (String.ofList s)
  | _ => none

def boolean? : Json → Option Bool
  | boolean b => some b
  | _ => none

def int? : Json → Option Int
  | number n => n.toInt?
  | _ => none

/-- A whole number that fits a 64-bit word. -/
def size? (doc : Json) : Option UInt64 := do
  let n ← doc.int?
  if 0 ≤ n ∧ n < UInt64.size then some (UInt64.ofNat n.toNat) else none

def items? : Json → Option (List Json)
  | array items => some items
  | _ => none

/-- What stands under a name, for readers that mind no other name. -/
def member? (doc : Json) (name : String) : Option Json :=
  match doc with
  | object members => (members.find? fun m => m.1 = some name.toList).map (·.2)
  | _ => none

/-! ## Building documents -/

def ofMembers (members : List (String × Json)) : Json :=
  object (members.map fun m => keyed m.1 m.2)

def ofInt (n : Int) : Json := number (Numeral.ofInt n)

def ofNat (n : Nat) : Json := ofInt n

def ofSize (n : UInt64) : Json := ofNat n.toNat

end EntityStore.Json
