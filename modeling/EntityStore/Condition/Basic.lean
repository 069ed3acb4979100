import EntityStore.Condition.Operator
import EntityStore.Value.TotalOrder

/-!
# Conditions

A condition compares fields with operands and joins the comparisons.  An operand is a literal, or a
parameter for which a call brings the value.  Conditions are built from left to right: `combine`
extends the junction at the root, or wraps all there is in a new one, so `a AND b OR c` means
`(a AND b) OR c`.

    (c.combine k next).parameterCount = c.parameterCount + next.parameterCount
                                                                  (parameterCount_combine)
-/

namespace EntityStore

inductive Conjunction
  | and
  | or
deriving DecidableEq, Inhabited

inductive Operand
  | parameter
  | literal (v : Value)
deriving DecidableEq, Inhabited

namespace Operand

def parameterCount : Operand → Nat
  | parameter => 1
  | literal _ => 0

def render : Operand → String
  | parameter => "?"
  | literal v => v.render

end Operand

inductive Condition
  | comparison (field : String) (operator : Operator) (operand : Operand)
  | conj (parts : List Condition)
  | disj (parts : List Condition)
  | neg (inner : Condition)
deriving Inhabited

namespace Condition

/-- The condition and one more, joined after everything so far. -/
def combine : Condition → Conjunction → Condition → Condition
  | conj parts, .and, next => conj (parts ++ [next])
  | disj parts, .or, next => disj (parts ++ [next])
  | c, .and, next => conj [c, next]
  | c, .or, next => disj [c, next]

/-! ## Parameters -/

mutual

/-- Number of values that a call must bring. -/
def parameterCount : Condition → Nat
  | comparison _ _ operand => operand.parameterCount
  | conj parts => parameterCounts parts
  | disj parts => parameterCounts parts
  | neg inner => parameterCount inner

def parameterCounts : List Condition → Nat
  | [] => 0
  | c :: cs => parameterCount c + parameterCounts cs

end

/-! ## Text -/

mutual

def render : Condition → String
  | comparison field operator operand => field ++ " " ++ operator.symbol ++ " " ++ operand.render
  | conj parts => "(" ++ " AND ".intercalate (renderAll parts) ++ ")"
  | disj parts => "(" ++ " OR ".intercalate (renderAll parts) ++ ")"
  | neg inner => "NOT " ++ render inner

def renderAll : List Condition → List String
  | [] => []
  | c :: cs => render c :: renderAll cs

end

/-! ## Fields -/

mutual

/-- The fields that are compared, from left to right. -/
def fields : Condition → List String
  | comparison field _ _ => [field]
  | conj parts => fieldsAll parts
  | disj parts => fieldsAll parts
  | neg inner => fields inner

def fieldsAll : List Condition → List String
  | [] => []
  | c :: cs => fields c ++ fieldsAll cs

end

/-! ## Lemmas -/

theorem parameterCounts_append (cs ds : List Condition) :
    parameterCounts (cs ++ ds) = parameterCounts cs + parameterCounts ds := by
  induction cs with
  | nil => simp [parameterCounts]
  | cons c cs ih => simp [parameterCounts, ih]; omega

theorem parameterCount_combine (c : Condition) (k : Conjunction) (next : Condition) :
    (c.combine k next).parameterCount = c.parameterCount + next.parameterCount := by
  cases c <;> cases k <;> simp [combine, parameterCount, parameterCounts, parameterCounts_append]

end Condition

end EntityStore
