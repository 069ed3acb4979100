import EntityStore.Condition.Basic
import EntityStore.Failure
import EntityStore.Text.LetterCase

/-!
# Clauses of a method name

A clause is a field, perhaps negated, perhaps with a suffix that names an operator:
`TitleNotIn`, `EditionLessThan`, `ActiveTrue`.  The words of the suffix and the negation are looked
for from the end, and at least one word is left for the field.
-/

namespace EntityStore.MethodName

/-- The field that some words name. -/
def fieldName (words : List String) : String :=
  String.ofList (Text.decapitalize (words.flatMap String.toList))

inductive Suffix
  | lessThanEqual
  | greaterThanEqual
  | lessThan
  | greaterThan
  | isIn
  | isTrue
  | isFalse
  /-- No suffix: the field equals its operand. -/
  | equal
deriving DecidableEq, Inhabited

namespace Suffix

/-- All suffixes; where two fit, the one that comes first is meant. -/
def all : List Suffix :=
  [lessThanEqual, greaterThanEqual, lessThan, greaterThan, isIn, isTrue, isFalse, equal]

def words : Suffix → List String
  | lessThanEqual => ["Less", "Than", "Equal"]
  | greaterThanEqual => ["Greater", "Than", "Equal"]
  | lessThan => ["Less", "Than"]
  | greaterThan => ["Greater", "Than"]
  | isIn => ["In"]
  | isTrue => ["True"]
  | isFalse => ["False"]
  | equal => []

def operator : Suffix → Operator
  | lessThanEqual => .lte
  | greaterThanEqual => .gte
  | lessThan => .lt
  | greaterThan => .gt
  | isIn => .isIn
  | isTrue | isFalse | equal => .eq

def operand : Suffix → Operand
  | isTrue => .literal (.boolean true)
  | isFalse => .literal (.boolean false)
  | _ => .parameter

/-- The clause ends in the suffix and has a word before it. -/
def fits (clause : List String) (suffix : Suffix) : Bool :=
  suffix.words.length < clause.length && suffix.words.isSuffixOf clause

/-- The suffix that a clause ends in. -/
def ofClause (clause : List String) : Suffix := (all.find? (fits clause)).getD equal

end Suffix

structure Clause where
  field : List String
  negated : Bool
  suffix : Suffix
deriving DecidableEq, Inhabited

namespace Clause

/-- Words that name an operator elsewhere and are refused at the end of a clause. -/
def refusedWords : List String := ["Between", "Like"]

def parse (method : String) (clause : List String) : Except Failure Clause :=
  match clause.getLast? with
  | none => .error (.clauseWithoutField method)
  | some last =>
    if 1 < clause.length ∧ last ∈ refusedWords then .error (.unsupportedOperator last method)
    else
      let suffix := Suffix.ofClause clause
      let rest := clause.take (clause.length - suffix.words.length)
      if 1 < rest.length ∧ rest.getLast? = some "Not" then .ok ⟨rest.dropLast, true, suffix⟩
      else .ok ⟨rest, false, suffix⟩

/-- The words of a clause: field, negation, suffix. -/
def words (clause : Clause) : List String :=
  clause.field ++ (if clause.negated then ["Not"] else []) ++ clause.suffix.words

def toCondition (clause : Clause) : Condition :=
  let leaf := Condition.comparison (fieldName clause.field) clause.suffix.operator
    clause.suffix.operand
  if clause.negated then .neg leaf else leaf

end Clause

end EntityStore.MethodName
