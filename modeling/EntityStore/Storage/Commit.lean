import EntityStore.Storage.Container

/-!
# Commits

What a store hands over after a write: the whole container, one record, or a batch of records.  A
durable copy that starts like the store and applies every commit in order (`replay`) holds what
the store holds.

    replay c (xs ++ ys) = replay (replay c xs) ys             (replay_append)
-/

namespace EntityStore

inductive Commit
  | container (contents : Container)
  | record (key : Value) (r : Record)
  | batch (entries : List (Value × Record))

namespace Commit

def isContainer : Commit → Bool
  | container _ => true
  | _ => false

def isRecord : Commit → Bool
  | record _ _ => true
  | _ => false

def isBatch : Commit → Bool
  | batch _ => true
  | _ => false

/-- A durable copy after one commit. -/
def apply (copy : Container) : Commit → Container
  | container contents => contents
  | record key r => copy.insert key r
  | batch entries => copy.insertAll entries

end Commit

/-- A durable copy after some commits. -/
def replay (copy : Container) (commits : List Commit) : Container := commits.foldl Commit.apply copy

theorem replay_append (copy : Container) (xs ys : List Commit) :
    replay copy (xs ++ ys) = replay (replay copy xs) ys := by
  simp [replay]

end EntityStore
