import EntityStore.Entity.Record
import EntityStore.Failure
import EntityStore.Text.LetterCase
import EntityStore.Value.Comparison

/-!
# Entity types and their schemas

An entity type declares named attributes, each an identifier or a column.  Its schema exists when
exactly one attribute is the identifier (`Schema.of`), and looks attributes up by name: exactly
(`field?`), or by a name that may be written in camel case (`resolve`).
-/

namespace EntityStore

inductive AttributeKind
  | identifier
  | column
deriving DecidableEq, Inhabited

def AttributeKind.name : AttributeKind → String
  | identifier => "id"
  | column => "column"

def AttributeKind.ofName? (name : String) : Option AttributeKind :=
  [identifier, column].find? (·.name = name)

structure Attribute where
  name : String
  kind : AttributeKind
  read : Record → Value

/-- A type whose instances can be stored. -/
structure EntityType where
  name : String
  /-- Tells the instances of this type from those of all others. -/
  typeName : String
  attributes : List Attribute

/-! ## Accessors -/

/-- Reads one attribute off the instances of an entity type. -/
structure Accessor where
  name : String
  entity : String
  typeName : String
  read : Record → Value

namespace Accessor

/-- The attribute of any record; the record must be an instance of the type. -/
def readRecord (accessor : Accessor) (record : Record) : Except Failure Value :=
  if record.typeName = accessor.typeName then .ok (accessor.read record)
  else .error (.foreignRead accessor.name accessor.entity record.typeName)

/-- Ascending order on the attribute, `null` last. -/
def ascending (accessor : Accessor) (a b : Record) : Except Failure Ordering :=
  (accessor.read a).compare (accessor.read b)

/-- Descending order on the attribute, `null` first. -/
def descending (accessor : Accessor) (a b : Record) : Except Failure Ordering :=
  (accessor.ascending a b).map Ordering.swap

/-- Both read the attribute of one name from the entity of one name. -/
def same (a b : Accessor) : Bool := a.name = b.name && a.entity = b.entity

end Accessor

/-! ## Schemas -/

structure Schema where
  name : String
  typeName : String
  identifier : Accessor
  columns : List Accessor

namespace EntityType

def accessor (type : EntityType) (declared : Attribute) : Accessor :=
  ⟨declared.name, type.name, type.typeName, declared.read⟩

def accessorsOf (type : EntityType) (kind : AttributeKind) : List Accessor :=
  (type.attributes.filter (·.kind = kind)).map type.accessor

end EntityType

namespace Schema

def of (type : EntityType) : Except Failure Schema :=
  match type.accessorsOf .identifier with
  | [] => .error (.missingIdentifier type.name)
  | [identifier] => .ok ⟨type.name, type.typeName, identifier, type.accessorsOf .column⟩
  | _ :: _ :: _ => .error (.repeatedIdentifier type.name)

/-- The identifier first, then the columns. -/
def accessors (schema : Schema) : List Accessor := schema.identifier :: schema.columns

/-- The first attribute with exactly this name. -/
def field? (schema : Schema) (name : String) : Option Accessor :=
  schema.accessors.find? (·.name = name)

/-- The attribute that a name in a query means: the one with this name, else the one whose name is
the snake case of it. -/
def resolve (schema : Schema) (name : String) : Except Failure Accessor :=
  match schema.field? name with
  | some accessor => .ok accessor
  | none =>
    match schema.field? (String.ofList (Text.snakeCase name.toList)) with
    | some accessor => .ok accessor
    | none => .error (.unknownField name schema.name)

def isInstance (schema : Schema) (record : Record) : Bool := record.typeName = schema.typeName

/-- The record, if it is an instance of the type. -/
def instance? (schema : Schema) (record : Record) : Option Record :=
  if schema.isInstance record then some record else none

/-- The instances of the type among some records. -/
def instances (schema : Schema) (records : List Record) : List Record :=
  records.filter schema.isInstance

/-- The identifier of an instance; it must not be `null`. -/
def key (schema : Schema) (record : Record) : Except Failure Value :=
  let key := schema.identifier.read record
  if key.isNull then .error (.nullIdentifier schema.name schema.identifier.name) else .ok key

/-- An instance with the key that it is filed under. -/
def entry (schema : Schema) (record : Record) : Except Failure (Value × Record) := do
  let key ← schema.key record
  pure (key, record)

/-! ## Lemmas -/

theorem name_of_field? {schema : Schema} {name : String} {accessor : Accessor}
    (h : schema.field? name = some accessor) : accessor.name = name := by
  simpa using List.find?_some h

theorem resolve_eq_of_field? {schema : Schema} {name : String} {accessor : Accessor}
    (h : schema.field? name = some accessor) : schema.resolve name = .ok accessor := by
  simp [resolve, h]

end Schema

end EntityStore
