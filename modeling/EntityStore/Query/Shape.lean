import EntityStore.Text.Blank

/-!
# Shapes of results

The form in which a query gives its result.  A shape may be named by a declared type such as
`List<Book>`: what counts is the last part of its path, without its parameters and whatever its
case.
-/

namespace EntityStore

inductive ResultShape
  | stream
  | list
  /-- One record for each identifier. -/
  | set
  | deque
  | page
  | optional
  | boolean
  | count
  /-- The first record, if there is one. -/
  | single
deriving DecidableEq, Inhabited

namespace ResultShape

def all : List ResultShape :=
  [stream, list, set, deque, page, optional, boolean, count, single]

def name : ResultShape → String
  | stream => "Stream"
  | list => "List"
  | set => "Set"
  | deque => "Deque"
  | page => "Page"
  | optional => "Optional"
  | boolean => "Boolean"
  | count => "Count"
  | single => "Single"

def ofName? (name : String) : Option ResultShape := all.find? (·.name = name)

/-! ## Declared types -/

/-- What follows the last double colon, or `path` where there is none left. -/
def lastSegment (path : List Char) : List Char → List Char
  | [] => path
  | ':' :: ':' :: rest => lastSegment rest (':' :: rest)
  | _ :: rest => lastSegment path rest

/-- The name that decides the shape of a declared type. -/
def baseName (declared : List Char) : List Char :=
  let path := Text.trim (declared.takeWhile (· ≠ '<'))
  (Text.trim (lastSegment path path)).map Char.toLower

/-- The type names of each shape; any other name means a single record. -/
def typeNames : List (ResultShape × List String) :=
  [(stream, ["stream", "iterator"]),
   (list, ["list", "iterable", "collection", "vec"]),
   (set, ["set", "hashset", "btreeset", "sortedset"]),
   (deque, ["deque", "queue", "vecdeque"]),
   (page, ["page"]),
   (optional, ["optional", "option"]),
   (boolean, ["bool", "boolean"]),
   (count, ["long", "u64", "usize", "count"])]

def ofDeclared (declared : String) : ResultShape :=
  let base := String.ofList (baseName declared.toList)
  match typeNames.find? (·.2.contains base) with
  | some (shape, _) => shape
  | none => single

end ResultShape

end EntityStore
