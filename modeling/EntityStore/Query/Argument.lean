import EntityStore.Entity.Record
import EntityStore.Paging.PageRequest

/-!
# Arguments of a call

Only values have a position among the arguments; page requests, sort keys and entities are picked
out wherever they stand.
-/

namespace EntityStore

inductive Argument
  | value (v : Value)
  | page (request : PageRequest)
  | sort (key : SortKey)
  | entity (record : Record)
  | entities (records : List Record)

namespace Argument

def value? : Argument → Option Value
  | value v => some v
  | _ => none

def page? : Argument → Option PageRequest
  | page request => some request
  | _ => none

def entity? : Argument → Option Record
  | entity record => some record
  | _ => none

def entities? : Argument → Option (List Record)
  | entities records => some records
  | _ => none

/-- The sort keys that an argument carries. -/
def sortKeys : Argument → List SortKey
  | sort key => [key]
  | page request => request.sorts
  | _ => []

/-! ## Rows of arguments -/

/-- The values, in order. -/
def values (args : List Argument) : List Value := args.filterMap value?

/-- The first page request. -/
def firstPage? (args : List Argument) : Option PageRequest := args.findSome? page?

def firstEntity? (args : List Argument) : Option Record := args.findSome? entity?

def firstEntities? (args : List Argument) : Option (List Record) := args.findSome? entities?

/-- The sort keys of all arguments, in order. -/
def allSortKeys (args : List Argument) : List SortKey := args.flatMap sortKeys

/-- The values, where a list stands for its items. -/
def flatValues (args : List Argument) : List Value :=
  (values args).flatMap fun v => v.asList?.getD [v]

end Argument

end EntityStore
