import EntityStore.Query.Derived
import EntityStore.TypedAccess

/-!
# The base vocabulary

The methods that every repository answers, for one entity type, first with arguments of their own
types and then with the arguments of a call by name (`Manager.call`).
-/

namespace EntityStore

/-- Methods that need no declaration. -/
inductive BaseMethod
  | save
  | saveAll
  | findById
  | existsById
  | findAll
  | findAllById
  | count
  | deleteById
  | delete
  | deleteAll
  | deleteAllById
deriving DecidableEq, Inhabited

namespace BaseMethod

def all : List BaseMethod :=
  [save, saveAll, findById, existsById, findAll, findAllById, count, deleteById, delete, deleteAll,
   deleteAllById]

def name : BaseMethod → String
  | save => "save"
  | saveAll => "saveAll"
  | findById => "findById"
  | existsById => "existsById"
  | findAll => "findAll"
  | findAllById => "findAllById"
  | count => "count"
  | deleteById => "deleteById"
  | delete => "delete"
  | deleteAll => "deleteAll"
  | deleteAllById => "deleteAllById"

def ofName? (name : String) : Option BaseMethod := all.find? (·.name = name)

end BaseMethod

/-- Manages the instances of one registered type. -/
structure Manager where
  catalog : Catalog
  type : EntityType
  schema : Schema

namespace Manager

/-- An identifier in a call; it must not be `null`. -/
def requiredId (id : Value) : Except Failure Value :=
  if id.isNull then .error .nullIdentifierArgument else .ok id

/-! ## Typed methods -/

def save (m : Manager) (record : Record) : StoreM Record := m.catalog.update m.type record

def saveAll (m : Manager) (records : List Record) : StoreM (List Record) :=
  m.catalog.updateAll m.type records

def findById (m : Manager) (id : Value) (s : Store) : Except Failure (Option Record) := do
  let id ← requiredId id
  m.catalog.find m.type id s

def existsById (m : Manager) (id : Value) (s : Store) : Except Failure Bool :=
  (m.findById id s).map Option.isSome

def findAll (m : Manager) (s : Store) : Except Failure (List Record) := m.catalog.entities m.type s

/-- One page of all instances, sorted by the keys of the request. -/
def findPage (m : Manager) (request : PageRequest) : StoreM Page := do
  let query ← Store.settled (DerivedQuery.compile "findAll" .page m.schema)
  let result ← query.execute [.page request]
  Store.settled result.toPage

/-- The instances under some identifiers; unknown ones are passed over. -/
def findAllById (m : Manager) (s : Store) : List Value → Except Failure (List Record)
  | [] => .ok []
  | id :: ids => do
    let found ← m.findById id s
    let rest ← findAllById m s ids
    pure (found.toList ++ rest)

def count (m : Manager) (s : Store) : Except Failure Nat := (m.findAll s).map List.length

def deleteById (m : Manager) (id : Value) : StoreM Unit := do
  let id ← Store.settled (requiredId id)
  m.catalog.delete id

def delete (m : Manager) (record : Record) : StoreM Unit := do
  let key ← Store.settled (m.schema.key record)
  m.catalog.delete key

def deleteAllById (m : Manager) (ids : List Value) : StoreM Nat := do
  let ids ← Store.settled (ids.mapM requiredId)
  m.catalog.deleteIds ids

/-- Drops what is filed under the identifiers of some instances. -/
def deleteEntities (m : Manager) (records : List Record) : StoreM Nat := do
  let ids ← Store.settled (records.mapM m.schema.key)
  m.catalog.deleteIds ids

/-- Drops everything, of all types. -/
def deleteAll (m : Manager) : StoreM Unit := m.catalog.deleteAll

/-! ## Calls by name -/

/-- An argument that must be an instance of the type. -/
def typed (m : Manager) (record : Record) : Except Failure Record :=
  match m.schema.instance? record with
  | some r => .ok r
  | none => .error (.foreignArgument m.schema.name record.typeName)

def entityArgument (m : Manager) (method : String) (args : List Argument) :
    Except Failure Record :=
  match Argument.firstEntity? args with
  | some record => m.typed record
  | none => .error (.entityRequired method)

def entitiesArgument (m : Manager) (method : String) (args : List Argument) :
    Except Failure (List Record) :=
  match Argument.firstEntities? args with
  | some records => records.mapM m.typed
  | none => .error (.entitiesRequired method)

def idArgument (method : String) (args : List Argument) : Except Failure Value :=
  match (Argument.values args).head? with
  | some id => .ok id
  | none => .error (.identifierRequired method)

/-- Calls a base method. -/
def callBase (m : Manager) (method : BaseMethod) (args : List Argument) : StoreM QueryResult := do
  match method with
  | .save =>
    let record ← Store.settled (m.entityArgument method.name args)
    let saved ← m.save record
    pure (.single (some saved))
  | .saveAll =>
    let records ← Store.settled (m.entitiesArgument method.name args)
    let saved ← m.saveAll records
    pure (.list saved)
  | .findById =>
    let id ← Store.settled (idArgument method.name args)
    let found ← Store.look (m.findById id)
    pure (.optional found)
  | .existsById =>
    let id ← Store.settled (idArgument method.name args)
    let found ← Store.look (m.existsById id)
    pure (.boolean found)
  | .findAll =>
    match Argument.firstPage? args with
    | some request =>
      let page ← m.findPage request
      pure (.page page)
    | none =>
      let records ← Store.look m.findAll
      pure (.list records)
  | .findAllById =>
    let records ← Store.look (fun s => m.findAllById s (Argument.flatValues args))
    pure (.list records)
  | .count =>
    let n ← Store.look m.count
    pure (.count n)
  | .deleteById =>
    let id ← Store.settled (idArgument method.name args)
    m.deleteById id
    pure .unit
  | .delete =>
    let record ← Store.settled (m.entityArgument method.name args)
    m.delete record
    pure .unit
  | .deleteAll =>
    if (Argument.firstEntities? args).isSome then
      let records ← Store.settled (m.entitiesArgument method.name args)
      let _ ← m.deleteEntities records
      pure .unit
    else
      m.deleteAll
      pure .unit
  | .deleteAllById =>
    let _ ← m.deleteAllById (Argument.flatValues args)
    pure .unit

/-- Calls a method that was declared as one of the base vocabulary. -/
def call (m : Manager) (method : String) (args : List Argument) : StoreM QueryResult :=
  match BaseMethod.ofName? method with
  | some base => m.callBase base args
  | none => Store.settled (.error (.notBaseMethod method))

end Manager

end EntityStore
