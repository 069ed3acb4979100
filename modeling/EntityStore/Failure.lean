import EntityStore.Condition.Operator
import EntityStore.Value.Basic

/-!
# Failures

Why an operation came to no result.  Each constructor is one cause; `Failure.message` is the only
place where its wording is decided.  All but one are errors that are returned; the other one is a
panic of the sort, which ends the call that asked for it all the same.
-/

namespace EntityStore

/-- The families of causes; the family leads the message. -/
inductive FailureCategory
  | mapping
  | typeMismatch
  | argument
  | nonUniqueResult
  | unsupported
  | configuration
  /-- No error that is returned, but a panic. -/
  | panic
deriving DecidableEq

def FailureCategory.name : FailureCategory → String
  | mapping => "Mapping"
  | typeMismatch => "TypeMismatch"
  | argument => "Argument"
  | nonUniqueResult => "NonUniqueResult"
  | unsupported => "Unsupported"
  | configuration => "Config"
  | panic => "Panic"

/-- What leads the message of a failure. -/
def FailureCategory.title : FailureCategory → String
  | mapping => "Mapping error"
  | typeMismatch => "Type mismatch"
  | argument => "Argument error"
  | nonUniqueResult => "Non-unique result"
  | unsupported => "Unsupported operation"
  | configuration => "Configuration error"
  | panic => "Panic"

inductive Failure
  /-- An entity type declares a second identifier. -/
  | repeatedIdentifier (entity : String)
  | missingIdentifier (entity : String)
  | unknownField (field entity : String)
  | unregisteredEntity (entity : String)
  /-- A field was read off a record of another type. -/
  | foreignRead (field entity typeName : String)
  /-- Records of another type were to be sorted. -/
  | foreignOrder (entity : String)
  /-- A record of another type was passed for an entity. -/
  | foreignArgument (entity typeName : String)
  | foreignRepository (repository managed requested : String)
  /-- A junction without parts means nothing. -/
  | emptyJunction
  | listRequired (field : String) (got : ValueKind)
  | notDerived (method : String)
  | clauseWithoutField (method : String)
  | directionWithoutField (method : String)
  | orderingWithoutField (method : String)
  | unsupportedOperator (word method : String)
  | noFieldSelected
  | incomparable (left right : ValueKind)
  /-- A range operator met a value of another kind than its operand. -/
  | rangeKind (field : String) (held : ValueKind) (operator : Operator) (operand : ValueKind)
  | unexpectedResult (expected actual : String)
  | missingArguments
  | nullOperand (operator : Operator) (field : String)
  /-- An instance has no identifier. -/
  | nullIdentifier (entity field : String)
  /-- A call names no identifier. -/
  | nullIdentifierArgument
  | nullKey
  | nullKeyInBatch
  | nullKeyInRemoval
  | zeroPageSize
  | zeroPageNumber
  | entityRequired (method : String)
  | entitiesRequired (method : String)
  | identifierRequired (method : String)
  /-- The application gave up, for a reason of its own. -/
  | abandoned (reason : String)
  | ambiguousResult (entity : String) (count : Nat)
  | untrackedTotalElements
  | untrackedTotalPages
  | rangeQuery
  | patternQuery
  | timeToLive
  | unsupportedMethod (method : String)
  | unknownMethod (repository method : String)
  | notBaseMethod (method : String)
  | malformedSettings
  | zeroDefaultPageSize
  /-- A sort was given answers that belong to no order. -/
  | inconsistentOrder
deriving DecidableEq, Inhabited

namespace Failure

def category : Failure → FailureCategory
  | repeatedIdentifier _ | missingIdentifier _ | unknownField _ _ | unregisteredEntity _
  | foreignRead _ _ _ | foreignOrder _ | foreignArgument _ _ | foreignRepository _ _ _
  | emptyJunction | listRequired _ _ | notDerived _ | clauseWithoutField _
  | directionWithoutField _ | orderingWithoutField _ | unsupportedOperator _ _
  | noFieldSelected => .mapping
  | incomparable _ _ | rangeKind _ _ _ _ | unexpectedResult _ _ => .typeMismatch
  | missingArguments | nullOperand _ _ | nullIdentifier _ _ | nullIdentifierArgument | nullKey
  | nullKeyInBatch | nullKeyInRemoval | zeroPageSize | zeroPageNumber | entityRequired _
  | entitiesRequired _ | identifierRequired _ | abandoned _ => .argument
  | ambiguousResult _ _ => .nonUniqueResult
  | untrackedTotalElements | untrackedTotalPages | rangeQuery | patternQuery | timeToLive
  | unsupportedMethod _ | unknownMethod _ _ | notBaseMethod _ => .unsupported
  | malformedSettings | zeroDefaultPageSize => .configuration
  | inconsistentOrder => .panic

def detail : Failure → String
  | repeatedIdentifier entity => s!"{entity} declares more than one identifier"
  | missingIdentifier entity => s!"missing identifier on entity {entity}"
  | unknownField field entity => s!"There is no field '{field}' on entity {entity}"
  | unregisteredEntity entity => s!"Entity {entity} is not registered"
  | foreignRead field entity typeName =>
    s!"Cannot read field '{field}' of {entity} from a {typeName}"
  | foreignOrder entity => s!"Cannot order records that are not {entity}"
  | foreignArgument entity typeName => s!"Expected a {entity} but got a {typeName}"
  | foreignRepository repository managed requested =>
    s!"Repository {repository} manages {managed}, not {requested}"
  | emptyJunction => "Empty conjunction in condition"
  | listRequired field got =>
    s!"IN on field '{field}' requires a list operand, got " ++ got.name
  | notDerived method => s!"'{method}' is not a derived query method"
  | clauseWithoutField method => s!"'{method}' has a clause without a field name"
  | directionWithoutField method => s!"'{method}' has a sort direction without a field"
  | orderingWithoutField method => s!"'{method}' has OrderBy without a field"
  | unsupportedOperator word method => s!"Unsupported operator '{word}' in '{method}'"
  | noFieldSelected => "No field selected: call where_, and or or before a comparison"
  | incomparable left right =>
    "Cannot compare incompatible types: " ++ left.name ++ " and " ++ right.name
  | rangeKind field held operator operand =>
    s!"Field '{field}' holds " ++ held.name ++ " but the " ++ operator.symbol ++ " operand is "
      ++ operand.name
  | unexpectedResult expected actual => s!"Expected a {expected} result, got {actual}"
  | missingArguments => "There are arguments missing"
  | nullOperand operator field =>
    "Null operand for '" ++ operator.symbol ++ s!"' on field '{field}'"
  | nullIdentifier entity field => s!"{entity} has a null identifier '{field}'"
  | nullIdentifierArgument => "Identifier must not be null"
  | nullKey => "Key must not be null"
  | nullKeyInBatch => "Null key in batch (NULL)"
  | nullKeyInRemoval => "Null key in removal list"
  | zeroPageSize => "Page size must be at least 1"
  | zeroPageNumber => "Page number is 1-based"
  | entityRequired method => s!"{method} requires an entity"
  | entitiesRequired method => s!"{method} requires entities"
  | identifierRequired method => s!"{method} requires an identifier"
  | abandoned reason => reason
  | ambiguousResult entity count => s!"Expected at most one {entity}, found {count}"
  | untrackedTotalElements => "Page does not track total elements"
  | untrackedTotalPages => "Page does not track total pages"
  | rangeQuery => "between is not supported"
  | patternQuery => "like is not supported"
  | timeToLive => "insert with time-to-live"
  | unsupportedMethod method =>
    s!"Repository method {method} is not supported, derived queries start with findBy, deleteBy, "
      ++ "countBy or existsBy"
  | unknownMethod repository method => s!"Repository {repository} has no method {method}"
  | notBaseMethod method => s!"'{method}' is not part of the repository base vocabulary"
  | malformedSettings => "the settings are not a document of the expected form"
  | zeroDefaultPageSize => "default_page_size must be > 0"
  | inconsistentOrder =>
    "user-provided comparison function does not correctly implement a total order"

def message (f : Failure) : String := f.category.title ++ ": " ++ f.detail

end Failure

end EntityStore
