import EntityStore.Entity.Schema

/-!
# Catalogs

The entity types that are known, in the order in which they were registered.  Registering a known
type again changes nothing.
-/

namespace EntityStore

structure Catalog where
  schemas : List Schema := []
deriving Inhabited

namespace Catalog

def find? (catalog : Catalog) (type : EntityType) : Option Schema :=
  catalog.schemas.find? (·.typeName = type.typeName)

def contains (catalog : Catalog) (type : EntityType) : Bool := (catalog.find? type).isSome

/-- The schema of a registered type. -/
def schema (catalog : Catalog) (type : EntityType) : Except Failure Schema :=
  match catalog.find? type with
  | some schema => .ok schema
  | none => .error (.unregisteredEntity type.name)

/-- Adds a type, whose schema must exist. -/
def register (catalog : Catalog) (type : EntityType) : Except Failure (Schema × Catalog) :=
  match catalog.find? type with
  | some schema => .ok (schema, catalog)
  | none => do
    let schema ← Schema.of type
    pure (schema, ⟨catalog.schemas ++ [schema]⟩)

/-- The catalog of some types, registered in order. -/
def ofTypes (types : List EntityType) : Except Failure Catalog :=
  types.foldlM (fun catalog type => (catalog.register type).map (·.2)) {}

def names (catalog : Catalog) : List String := catalog.schemas.map (·.name)

def size (catalog : Catalog) : Nat := catalog.schemas.length

def isEmpty (catalog : Catalog) : Bool := catalog.schemas.isEmpty

end Catalog

end EntityStore
