/-!
# Comparison operators

How the value of a field is compared with an operand.
-/

namespace EntityStore

inductive Operator
  | eq
  | gt
  | gte
  | lt
  | lte
  /-- The value is a member of the operand, which is a list. -/
  | isIn
deriving DecidableEq, Inhabited

namespace Operator

def all : List Operator := [eq, gt, gte, lt, lte, isIn]

def name : Operator → String
  | eq => "Eq"
  | gt => "Gt"
  | gte => "Gte"
  | lt => "Lt"
  | lte => "Lte"
  | isIn => "In"

def ofName? (name : String) : Option Operator := all.find? (·.name = name)

/-- How the operator is shown in a condition. -/
def symbol : Operator → String
  | eq => "="
  | gt => ">"
  | gte => ">="
  | lt => "<"
  | lte => "<="
  | isIn => "IN"

/-- The operator holds of a value that stands in the given order to the operand. -/
def admits : Operator → Ordering → Bool
  | eq, o => o == .eq
  | gt, o => o == .gt
  | gte, o => o != .lt
  | lt, o => o == .lt
  | lte, o => o != .gt
  | isIn, _ => false

end Operator

end EntityStore
