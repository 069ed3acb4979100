import EntityStore.Entity.Schema

/-!
# Declared entity types

A declaration lists the members of a record type and which of them are stored: as identifier, as
column, under their own name or another.  The type of a member says how its content becomes a
value.
-/

namespace EntityStore

/-- What a member holds. -/
inductive MemberType
  | text
  /-- A whole number of any width up to 64 bits. -/
  | integer
  | boolean
  | date
  | double
  /-- A float of single precision; it is widened when it becomes a value. -/
  | single
  | optional (content : MemberType)
  | list (items : MemberType)
deriving DecidableEq, Inhabited

namespace MemberType

/-- The value of a member with the given content. -/
def toValue : MemberType → Value → Value
  | single, .float x => .float x.toSingle
  | optional content, v => if v.isNull then .null else content.toValue v
  | list items, .list vs => .list (vs.map items.toValue)
  | _, v => v

end MemberType

structure Member where
  name : String
  type : MemberType
  /-- Members without a role are not stored. -/
  role : Option AttributeKind := none
  rename : Option String := none

structure Declaration where
  name : String
  members : List Member

namespace Declaration

/-- The attribute that a member becomes. -/
def attributeOf? (instances : Instances) (m : Member) : Option Attribute :=
  m.role.map fun role =>
    { name := m.rename.getD m.name
      kind := role
      read := fun record => m.type.toValue (instances.read record m.name) }

/-- The declared type, over the present state of all instances. -/
def entityType (d : Declaration) (typeName : String) (instances : Instances) : EntityType :=
  ⟨d.name, typeName, d.members.filterMap (attributeOf? instances)⟩

end Declaration

/-- The type whose attributes hold values of any kind, over the present state of all instances. -/
def EntityType.ofAttributes (name typeName : String) (attributes : List (String × AttributeKind))
    (instances : Instances) : EntityType :=
  ⟨name, typeName, attributes.map fun (attributeName, kind) =>
    { name := attributeName
      kind := kind
      read := fun record => instances.read record attributeName }⟩

end EntityStore
