import EntityStore.Condition.Filter
import EntityStore.Settings
import EntityStore.Sorting.StableSort
import EntityStore.Storage.Commit

/-!
# Stores

A store holds records under keys and hands every write over as commits, which it keeps in order.
A write that leaves each key bound to the instance it was bound to is in place: under the refined
policy it commits only the records it touched.  Every other write commits the whole container.

Operations are in `StoreM`: an operation that fails may have changed the store, and
`Store.transaction` keeps what its work changed before it failed.
-/

namespace EntityStore

structure Store where
  contents : Container := .empty
  settings : Settings := {}
  /-- All commits so far, the oldest first. -/
  commits : List Commit := []
deriving Inhabited

/-- Operations that change a store and may fail. -/
abbrev StoreM := ExceptT Failure (StateM Store)

namespace Store

/-- A store with previously stored contents.  Nothing is committed. -/
def hydrate (contents : Container) (settings : Settings) : Store :=
  { contents := contents, settings := settings }

def commit (s : Store) (cs : List Commit) : Store := { s with commits := s.commits ++ cs }

/-- New contents, committed as a whole. -/
def replaceContents (s : Store) (contents : Container) : Store :=
  { s with contents := contents }.commit [.container contents]

def isRefined (s : Store) : Bool := s.settings.commitPolicy = .refined

/-- An operation that only looks. -/
def look {α : Type} (f : Store → Except Failure α) : StoreM α := fun s => (f s, s)

/-- What is settled without looking. -/
def settled {α : Type} (outcome : Except Failure α) : StoreM α := fun s => (outcome, s)

/-! ## Writing -/

/-- Files a record under a key and returns the record that was there. -/
def put (k : Value) (r : Record) : StoreM (Option Record) := fun s =>
  if k.isNull then (.error .nullKey, s)
  else
    let previous := s.contents.get? k
    let contents := s.contents.insert k r
    let committed := if previous = some r ∧ s.isRefined then Commit.record k r
      else .container contents
    (.ok previous, { s with contents := contents }.commit [committed])

/-- Sorts out a batch that is put entry by entry: whether one of the entries is not in place, and
those that are. -/
def splitBatch (c : Container) : List (Value × Record) → Bool × List (Value × Record)
  | [] => (false, [])
  | e :: es =>
    let (structural, inPlace) := splitBatch (c.insert e.1 e.2) es
    if c.get? e.1 = some e.2 then (structural, e :: inPlace) else (true, inPlace)

/-- The commits of a batch: the container at most once, the records in place at most once. -/
def batchCommits (refined : Bool) (contents : Container) (structural : Bool)
    (inPlace : List (Value × Record)) : List Commit :=
  (if structural || (!refined && !inPlace.isEmpty) then [.container contents] else [])
    ++ (if refined && !inPlace.isEmpty then [.batch inPlace] else [])

/-- Files a batch of records; no key may be `null`. -/
def putAll (batch : List (Value × Record)) : StoreM Unit := fun s =>
  if batch.any (·.1.isNull) then (.error .nullKeyInBatch, s)
  else
    let (structural, inPlace) := splitBatch s.contents batch
    let contents := s.contents.insertAll batch
    (.ok (), { s with contents := contents }.commit
      (batchCommits s.isRefined contents structural inPlace))

/-- Drops the record under a key and returns it. -/
def remove (k : Value) : StoreM (Option Record) := fun s =>
  if k.isNull then (.error .nullKey, s)
  else (.ok (s.contents.get? k), s.replaceContents (s.contents.erase k))

/-- How many of the keys are there when their turn comes. -/
def countPresent (c : Container) : List Value → Nat
  | [] => 0
  | k :: ks => (if c.contains k then 1 else 0) + countPresent (c.erase k) ks

/-- Drops what is under the keys and returns how many records that were. -/
def removeKeys (keys : List Value) : StoreM Nat := fun s =>
  (.ok (countPresent s.contents keys), s.replaceContents (s.contents.eraseAll keys))

def removeAll (keys : List Value) : StoreM Nat := fun s =>
  if keys.any (·.isNull) then (.error .nullKeyInRemoval, s) else removeKeys keys s

/-- The keys of the records that match. -/
def matchingKeys (f : Filter) : List (Value × Record) → Except Failure (List Value)
  | [] => .ok []
  | e :: es => do
    if ← f e.2 then
      pure (e.1 :: (← matchingKeys f es))
    else matchingKeys f es

/-- Drops all records that match.  Nothing is dropped unless the filter decides them all. -/
def removeWhere (f : Filter) : StoreM Nat := fun s =>
  match matchingKeys f s.contents.entries with
  | .error failure => (.error failure, s)
  | .ok keys => removeKeys keys s

def clear : StoreM Unit := fun s => (.ok (), s.replaceContents .empty)

/-! ## Reading -/

def records (s : Store) : List Record := s.contents.records

/-- The part of a result that is asked for; a limit of zero is none. -/
def window (skip limit : Nat) (rs : List Record) : List Record :=
  if limit = 0 then rs.drop skip else (rs.drop skip).take limit

/-- The records that match, sorted, and of these a window. -/
def select (f : Filter) (comparators : List Comparator) (skip limit : Nat) (s : Store) :
    Except Failure (List Record) := do
  let found ← f.select s.records
  let sorted ← sortRecords comparators found
  pure (window skip limit sorted)

/-! ## Transactions -/

/-- Runs some work; if it succeeds, the whole container is committed once more, unless the settings
say otherwise.  If it fails, what it changed stays and nothing more is committed. -/
def transaction {α : Type} (work : StoreM α) : StoreM α := fun s =>
  match work s with
  | (.ok a, s) =>
    (.ok a, if s.settings.transactionCommit then s.commit [.container s.contents] else s)
  | (.error failure, s) => (.error failure, s)

end Store

end EntityStore
