import EntityStore.Entity.Catalog
import EntityStore.Query.Builder

/-!
# Typed access to a store

One store may hold instances of several entity types.  An instance is filed under its identifier,
whatever was there before; reading by type sees the instances of that type only.
-/

namespace EntityStore

namespace Catalog

/-! ## Writing -/

/-- Files an instance under its identifier. -/
def update (catalog : Catalog) (type : EntityType) (record : Record) : StoreM Record := do
  let schema ← Store.settled (catalog.schema type)
  let (key, r) ← Store.settled (schema.entry record)
  let _ ← Store.put key r
  pure record

/-- Files some instances as one batch. -/
def updateAll (catalog : Catalog) (type : EntityType) (records : List Record) :
    StoreM (List Record) := do
  let schema ← Store.settled (catalog.schema type)
  let batch ← Store.settled (records.mapM schema.entry)
  Store.putAll batch
  pure records

/-- Instances that expire are not offered. -/
def insertWithTimeToLive (_ : Catalog) (_ : EntityType) (_ : List Record) :
    StoreM (List Record) :=
  Store.settled (.error .timeToLive)

/-- Drops whatever is filed under an identifier. -/
def delete (_ : Catalog) (id : Value) : StoreM Unit := do
  let _ ← Store.remove id
  pure ()

def deleteIds (_ : Catalog) (ids : List Value) : StoreM Nat := Store.removeAll ids

/-- Drops everything, of all types. -/
def deleteAll (_ : Catalog) : StoreM Unit := Store.clear

/-! ## Reading -/

/-- The instance filed under an identifier, if it is of the type. -/
def find (catalog : Catalog) (type : EntityType) (id : Value) (s : Store) :
    Except Failure (Option Record) := do
  let schema ← catalog.schema type
  pure ((s.contents.get? id).bind schema.instance?)

/-- All instances of the type. -/
def entities (catalog : Catalog) (type : EntityType) (s : Store) :
    Except Failure (List Record) := do
  let schema ← catalog.schema type
  pure (schema.instances s.records)

/-- Starts a condition on the instances of the type. -/
def builder (catalog : Catalog) (type : EntityType) : Except Failure ConditionBuilder := do
  let schema ← catalog.schema type
  pure { schema := schema }

/-- Starts a selection among the instances of the type. -/
def selection (catalog : Catalog) (type : EntityType) : Except Failure Selection := do
  let builder ← catalog.builder type
  pure { builder := builder }

end Catalog

end EntityStore
