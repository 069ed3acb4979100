import EntityStore.Query.Builder

/-!
# Rows of calls

A query that is built step by step may also be written down, as the row of calls that builds it.
The calls run in order; the first one that fails ends the row, and its place is told.

    q.run (xs ++ ys) = (q.run xs).bind fun q' => runFrom xs.length q' ys     (run_append)
-/

namespace EntityStore

/-- A call on a condition that is being built. -/
inductive ConditionCall
  | target (field : String) (k : Conjunction)
  | negate
  | compare (operator : Operator) (operand : Value)
  | between (low high : Value)
  | like (pattern : Value)
deriving Inhabited

def ConditionBuilder.call (b : ConditionBuilder) : ConditionCall → Except Failure ConditionBuilder
  | .target field k => .ok (b.target field k)
  | .negate => .ok b.negate
  | .compare operator operand => b.compare operator operand
  | .between low high => b.between low high
  | .like pattern => b.like pattern

/-- A call on a selection. -/
inductive SelectionCall
  | condition (call : ConditionCall)
  | orderBy (field : String) (direction : Direction)
  | skip (n : Nat)
  | limit (n : Nat)
deriving Inhabited

namespace Selection

def call (q : Selection) : SelectionCall → Except Failure Selection
  | .condition c => (q.builder.call c).map fun b => { q with builder := b }
  | .orderBy field direction => q.orderBy field direction
  | .skip n => .ok { q with skip := n }
  | .limit n => .ok { q with limit := n }

/-- Runs a row of calls that starts at a place. -/
def runFrom (place : Nat) (q : Selection) :
    List SelectionCall → Except (Nat × Failure) Selection
  | [] => .ok q
  | c :: cs =>
    match q.call c with
    | .ok q => runFrom (place + 1) q cs
    | .error f => .error (place, f)

/-- Runs a row of calls; where one fails, its place and its failure. -/
def run (q : Selection) (calls : List SelectionCall) : Except (Nat × Failure) Selection :=
  runFrom 0 q calls

theorem runFrom_append (place : Nat) (q : Selection) (xs ys : List SelectionCall) :
    runFrom place q (xs ++ ys) =
      (runFrom place q xs).bind fun q' => runFrom (place + xs.length) q' ys := by
  induction xs generalizing place q with
  | nil => rfl
  | cons c cs ih =>
    simp only [List.cons_append, runFrom]
    cases h : q.call c with
    | error f => rfl
    | ok q' => simp [ih, Nat.add_assoc, Nat.add_comm 1]

theorem run_append (q : Selection) (xs ys : List SelectionCall) :
    q.run (xs ++ ys) = (q.run xs).bind fun q' => runFrom xs.length q' ys := by
  simp [run, runFrom_append]

end Selection

end EntityStore
