import EntityStore.Repository.BaseVocabulary

/-!
# Repositories

A repository is declared by a name, the entity type that it manages and some methods.  When it is
built every method is classified and compiled.  A method that cannot be compiled does not stop the
repository from being built: its failure is kept and given whenever the method is called.

Of two methods of one name the later one counts, and a declared method hides a base method.
-/

namespace EntityStore

structure MethodSignature where
  name : String
  shape : ResultShape := .single
  /-- The method is declared as one of the base vocabulary. -/
  isBase : Bool := false
deriving DecidableEq, Inhabited

namespace MethodSignature

/-- A method with a declared type such as `List<Book>`. -/
def returning (name declared : String) : MethodSignature := ⟨name, .ofDeclared declared, false⟩

def base (name : String) : MethodSignature := ⟨name, .single, true⟩

end MethodSignature

structure RepositoryDescriptor where
  name : String
  managed : EntityType
  methods : List MethodSignature

/-- What a call of a method does. -/
inductive MethodTarget
  | base (method : String)
  | derived (query : Except Failure DerivedQuery)
  | unsupported (method : String)

structure Repository where
  name : String
  manager : Manager
  /-- Declared methods, the first one first. -/
  declared : List (String × MethodKind × MethodTarget)

namespace Repository

/-- A signature as an entry of the table of methods. -/
def compileMethod (schema : Schema) (signature : MethodSignature) :
    String × MethodKind × MethodTarget :=
  let kind := MethodKind.classify signature.name signature.isBase
  let target := match kind with
    | .base => MethodTarget.base signature.name
    | .unsupported => .unsupported signature.name
    | _ => .derived (DerivedQuery.compile signature.name signature.shape schema)
  (signature.name, kind, target)

/-- A repository for the type that is asked for, which must be the one that the descriptor
manages. -/
def build (descriptor : RepositoryDescriptor) (type : EntityType) (catalog : Catalog) :
    Except Failure Repository :=
  if descriptor.managed.typeName ≠ type.typeName then
    .error (.foreignRepository descriptor.name descriptor.managed.name type.name)
  else do
    let schema ← catalog.schema type
    pure ⟨descriptor.name, ⟨catalog, type, schema⟩, descriptor.methods.map (compileMethod schema)⟩

def baseTable : List (String × MethodKind × MethodTarget) :=
  BaseMethod.all.map fun method => (method.name, .base, .base method.name)

/-- The method of a name: the last declared one, else the base method. -/
def method? (r : Repository) (name : String) : Option (MethodKind × MethodTarget) :=
  (r.declared.reverse ++ baseTable).lookup name

def kind? (r : Repository) (name : String) : Option MethodKind := (r.method? name).map (·.1)

/-- Calls a method by name. -/
def invoke (r : Repository) (name : String) (args : List Argument) : StoreM QueryResult :=
  match r.method? name with
  | none => Store.settled (.error (.unknownMethod r.name name))
  | some (_, .base method) => r.manager.call method args
  | some (_, .unsupported method) => Store.settled (.error (.unsupportedMethod method))
  | some (_, .derived (.error failure)) => Store.settled (.error failure)
  | some (_, .derived (.ok query)) => query.execute args

end Repository

end EntityStore
