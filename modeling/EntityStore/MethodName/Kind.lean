/-!
# Kinds of repository methods

What a method does is told by its name: a method of the base vocabulary, the one name `findAll`, or
a name that starts with one of four leads and goes on with a query.
-/

namespace EntityStore

inductive MethodKind
  /-- Part of the base vocabulary of every repository. -/
  | base
  | findAll
  | derivedFind
  | derivedDelete
  | derivedCount
  | derivedExists
  /-- Fails whenever it is called. -/
  | unsupported
deriving DecidableEq, Inhabited

namespace MethodKind

def name : MethodKind → String
  | base => "PlainForward"
  | findAll => "FindAll"
  | derivedFind => "DerivedFind"
  | derivedDelete => "DerivedDelete"
  | derivedCount => "DerivedCount"
  | derivedExists => "DerivedExists"
  | unsupported => "Unsupported"

/-- The leads of derived methods. -/
def leads : List (String × MethodKind) :=
  [("findBy", derivedFind), ("deleteBy", derivedDelete), ("countBy", derivedCount),
   ("existsBy", derivedExists)]

def isDerived : MethodKind → Bool
  | derivedFind | derivedDelete | derivedCount | derivedExists => true
  | _ => false

/-- The kind that a lead announces and what follows the lead. -/
def derived? (name : List Char) : Option (MethodKind × List Char) :=
  leads.findSome? fun (lead, kind) =>
    if lead.toList.isPrefixOf name then some (kind, name.drop lead.length) else none

/-- The base vocabulary goes first, then `findAll`, then the leads. -/
def classify (name : String) (isBase : Bool) : MethodKind :=
  if isBase then base
  else if name = "findAll" then findAll
  else match derived? name.toList with
    | some (kind, _) => kind
    | none => unsupported

end MethodKind

end EntityStore
