import EntityStore.Failure
import EntityStore.Json.Fields

/-!
# Settings of a store

What a store commits after a write, the size of a page that nobody asked for, and whether a
transaction commits the whole store at its end.  Settings are read from a document in which every
field may be missing.
-/

namespace EntityStore

inductive CommitPolicy
  /-- A write that leaves every key bound to the instance it was bound to commits only the records
  that it touched. -/
  | refined
  /-- Every write commits the whole container. -/
  | wholeContainer
deriving DecidableEq, Inhabited

def CommitPolicy.name : CommitPolicy → String
  | refined => "refined"
  | wholeContainer => "whole_container"

def CommitPolicy.ofName? (name : List Char) : Option CommitPolicy :=
  if name = CommitPolicy.refined.name.toList then some .refined
  else if name = CommitPolicy.wholeContainer.name.toList then some .wholeContainer
  else none

structure Settings where
  commitPolicy : CommitPolicy := .refined
  /-- Not checked here: `validate` is asked for by whoever wants it. -/
  defaultPageSize : UInt64 := 20
  transactionCommit : Bool := true
deriving DecidableEq, Inhabited

namespace Settings

def validate (s : Settings) : Except Failure Unit :=
  if s.defaultPageSize = 0 then .error .zeroDefaultPageSize else .ok ()

/-! ## Documents -/

def fieldNames : List String := ["commit_policy", "default_page_size", "transaction_commit"]

def toDocument (s : Settings) : Json :=
  .ofMembers [("commit_policy", .ofText s.commitPolicy.name),
    ("default_page_size", .ofSize s.defaultPageSize),
    ("transaction_commit", .boolean s.transactionCommit)]

/-- The value of a field, or `fallback` where the field is missing. -/
def fieldOr {α : Type} (fallback : α) (read : Json → Option α) : Option Json → Option α
  | none => some fallback
  | some doc => read doc

def ofDocument? (doc : Json) : Option Settings :=
  match doc.fields? fieldNames with
  | some [policy, size, commit] => do
    let standard : Settings := {}
    let policy ← fieldOr standard.commitPolicy (fun d => d.name?.bind CommitPolicy.ofName?) policy
    let size ← fieldOr standard.defaultPageSize Json.size? size
    let commit ← fieldOr standard.transactionCommit Json.boolean? commit
    pure ⟨policy, size, commit⟩
  | _ => none

/-- Valid settings from a text. -/
def parse (text : String) : Except Failure Settings :=
  match (Json.parse? text).bind ofDocument? with
  | none => .error .malformedSettings
  | some s => do
    s.validate
    pure s

end Settings

end EntityStore
