import EntityStore.MethodName.Clause
import EntityStore.MethodName.Kind
import EntityStore.MethodName.Words
import EntityStore.Sorting.SortKey

/-!
# Queries in method names

A derived name goes on after its lead with clauses joined by `And` and `Or`, and with groups of sort
keys, each group led by `OrderBy`:

    findBy Title Or Edition Less Than And Active True Order By Title Desc Isbn

Clauses are combined from left to right.  A sort key ends in `Asc` or `Desc`, or at the end of its
group.
-/

namespace EntityStore

/-- What a derived name asks for. -/
structure MethodQuery where
  kind : MethodKind
  condition : Condition
  sorts : List SortKey

namespace MethodName

/-! ## Sections -/

/-- The words before the first `Order By` and the words after each. -/
def sections : List String → List String × List (List String)
  | [] => ([], [])
  | [w] => ([w], [])
  | w :: v :: rest =>
    if w = "Order" ∧ v = "By" then
      let (group, groups) := sections rest
      ([], group :: groups)
    else
      let (group, groups) := sections (v :: rest)
      (w :: group, groups)

def conjunction? (word : String) : Option Conjunction :=
  if word = "And" then some .and else if word = "Or" then some .or else none

/-- The words of the first clause and of each further one with what joins it. -/
def splitClauses : List String → List String × List (Conjunction × List String)
  | [] => ([], [])
  | w :: ws =>
    let (clause, rest) := splitClauses ws
    match conjunction? w with
    | some k => ([], (k, clause) :: rest)
    | none => (w :: clause, rest)

/-! ## Criteria -/

/-- Joins further clauses to a condition. -/
def joinClauses (method : String) (c : Condition) :
    List (Conjunction × List String) → Except Failure Condition
  | [] => .ok c
  | (k, clause) :: rest => do
    let next ← Clause.parse method clause
    joinClauses method (c.combine k next.toCondition) rest

def criteria (method : String) (words : List String) : Except Failure Condition := do
  let (clause, rest) := splitClauses words
  let first ← Clause.parse method clause
  joinClauses method first.toCondition rest

/-! ## Ordering -/

def direction? (word : String) : Option Direction :=
  if word = "Asc" then some .asc else if word = "Desc" then some .desc else none

/-- The sort keys of a group; `field` holds the words of the key that is being read. -/
def groupKeys (method : String) : List String → List String → Except Failure (List SortKey)
  | field, [] => .ok (if field.isEmpty then [] else [⟨fieldName field, .asc⟩])
  | field, w :: ws =>
    match direction? w with
    | none => groupKeys method (field ++ [w]) ws
    | some direction =>
      if field.isEmpty then .error (.directionWithoutField method)
      else (groupKeys method [] ws).map (⟨fieldName field, direction⟩ :: ·)

/-- The sort keys of all groups; where there is a group there must be a key. -/
def ordering (method : String) (groups : List (List String)) : Except Failure (List SortKey) := do
  let keys ← groups.mapM (groupKeys method [])
  if !groups.isEmpty && keys.flatten.isEmpty then .error (.orderingWithoutField method)
  else .ok keys.flatten

end MethodName

/-! ## Names -/

open MethodName in
def MethodQuery.parse (name : String) : Except Failure MethodQuery :=
  match MethodKind.derived? name.toList with
  | none => .error (.notDerived name)
  | some (kind, body) => do
    let (clauses, groups) := sections (words body)
    let condition ← criteria name clauses
    let sorts ← ordering name groups
    pure ⟨kind, condition, sorts⟩

end EntityStore
