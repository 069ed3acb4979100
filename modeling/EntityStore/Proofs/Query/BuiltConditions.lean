import EntityStore.Proofs.Condition.LeftSpine
import EntityStore.Proofs.MethodName.Criteria
import EntityStore.Query.Chain

/-!
# How conditions are built

A condition comes from the clauses of a method name or from calls, and either way it is a row of
leaves that are combined one after the other.  So it leans to the left, has its leaves in the order
in which they were declared, and can never fail for a junction without parts.

    MethodQuery.parse name = .ok q → ∃ first rest, Declares name first rest ∧
      q.condition = first.toCondition.combineAll (rest.map conditionOf)      (exists_declares)
    calls.foldlM call b = .ok b' → b.condition = ofRow row →
      ∃ more, List.Forall₂ (Means b.schema) (declared b.field b.conjunction b.negated calls) more ∧
        b'.condition = ofRow (row ++ more)                                       (exists_row)
-/

namespace EntityStore

/-! ## Names -/

namespace MethodName

/-- Clauses as they stand in a name. -/
def clauseWords (first : Clause) (rest : List (Conjunction × Clause)) : List String :=
  first.words ++ rest.flatMap fun part => joined (part.1, part.2.words)

/-- Up to its ordering the name consists of a lead and these clauses, and each clause is read back
from the words that it has there. -/
structure Declares (name : String) (first : Clause) (rest : List (Conjunction × Clause)) :
    Prop where
  divides : ∃ (lead : String) (kind : MethodKind) (body : List Char) (groups : List (List String)),
    (lead, kind) ∈ MethodKind.leads ∧ name.toList = lead.toList ++ body ∧
    words body = clauseWords first rest ++ groups.flatMap underOrderBy
  orderFree : OrderFree (clauseWords first rest)
  joinFree : JoinFree first.words ∧ ∀ part ∈ rest, JoinFree part.2.words
  reads : Clause.parse name first.words = .ok first ∧
    ∀ part ∈ rest, Clause.parse name part.2.words = .ok part.2

theorem Clause.isLeaf_toCondition (clause : Clause) : clause.toCondition.IsLeaf := by
  unfold toCondition
  cases clause.negated with
  | true => exact .neg _ _ _
  | false => exact .comparison _ _ _

end MethodName

open MethodName in
theorem MethodQuery.exists_declares {name : String} {q : MethodQuery}
    (h : MethodQuery.parse name = .ok q) : ∃ first rest, Declares name first rest ∧
      q.condition = first.toCondition.combineAll (rest.map conditionOf) := by
  obtain ⟨lead, body, criteriaWords, groups, hlead, hname, hwords, hfree, -, hcondition, -⟩ :=
    MethodQuery.parse_eq_ok_iff.1 h
  obtain ⟨clause, parts, first, rest, rfl, hclause, hparts, hfirst, hrest, hq⟩ :=
    criteria_eq_ok_iff.1 hcondition
  obtain ⟨rfl, hreads⟩ := eq_map_of_mapM_parsePart hrest
  obtain rfl := Clause.words_of_parse hfirst
  rw [List.flatMap_map] at hwords hfree
  refine ⟨first, rest, ⟨⟨lead, _, body, groups, hlead, hname, hwords⟩, hfree, ⟨hclause, ?_⟩,
    hfirst, hreads⟩, hq⟩
  intro part hpart
  exact hparts (part.1, part.2.words) (List.mem_map_of_mem hpart)

/-! ## Calls -/

/-- A comparison as calls declare it. -/
structure DeclaredComparison where
  conjunction : Conjunction
  field : String
  negated : Bool
  operator : Operator
  operand : Value

namespace DeclaredComparison

/-- The condition on the attribute that the field means. -/
def toCondition (d : DeclaredComparison) (accessor : Accessor) : Condition :=
  let leaf := Condition.comparison accessor.name d.operator (.literal d.operand)
  if d.negated then .neg leaf else leaf

/-- The part of a condition that the comparison stands for. -/
def Means (schema : Schema) (d : DeclaredComparison) (part : Conjunction × Condition) : Prop :=
  part.1 = d.conjunction ∧
    ∃ accessor, schema.resolve d.field = .ok accessor ∧ part.2 = d.toCondition accessor

theorem Means.isLeaf {schema : Schema} {d : DeclaredComparison} {part : Conjunction × Condition}
    (h : Means schema d part) : part.2.IsLeaf := by
  obtain ⟨-, accessor, -, hpart⟩ := h
  rw [hpart, toCondition]
  cases d.negated with
  | true => exact .neg _ _ _
  | false => exact .comparison _ _ _

theorem isLeaf_of_forall₂ {schema : Schema} {ds : List DeclaredComparison}
    {row : List (Conjunction × Condition)} (h : List.Forall₂ (Means schema) ds row) :
    ∀ part ∈ row, part.2.IsLeaf := by
  induction h with
  | nil => exact List.forall_mem_nil _
  | cons hpart _ ih => exact List.forall_mem_cons.2 ⟨hpart.isLeaf, ih⟩

end DeclaredComparison

/-- The comparisons that calls declare, where a field may be selected and a negation may wait.  A
field stays selected until the next one is, a negation waits for one comparison only. -/
def ConditionCall.declared (field : Option String) (k : Conjunction) (negated : Bool) :
    List ConditionCall → List DeclaredComparison
  | [] => []
  | .target field k :: calls => declared (some field) k negated calls
  | .negate :: calls => declared field k true calls
  | .compare operator operand :: calls =>
    (field.map fun field => ⟨k, field, negated, operator, operand⟩).toList ++
      declared field k false calls
  -- These two always fail.
  | .between _ _ :: calls => declared field k negated calls
  | .like _ :: calls => declared field k negated calls

/-- The calls of a selection that are about its condition. -/
def SelectionCall.conditionCalls (calls : List SelectionCall) : List ConditionCall :=
  calls.filterMap fun
    | .condition c => some c
    | _ => none

/-- The parts combined from left to right; the first finds nothing to be joined to. -/
def Condition.ofRow : List (Conjunction × Condition) → Option Condition
  | [] => none
  | part :: rest => some (part.2.combineAll rest)

namespace ConditionBuilder

variable {b b' : ConditionBuilder}

theorem extend_ofRow (row : List (Conjunction × Condition)) (k : Conjunction) (leaf : Condition) :
    some (extend (Condition.ofRow row) k leaf) = Condition.ofRow (row ++ [(k, leaf)]) := by
  cases row with
  | nil => rfl
  | cons part rest =>
    exact congrArg some (Condition.combineAll_concat part.2 rest (k, leaf)).symm

/-- A comparison that is accepted adds what it declares, and nothing else changes. -/
theorem exists_of_compare {operator : Operator} {operand : Value}
    (h : b.compare operator operand = .ok b') : ∃ field part, b.field = some field ∧
      DeclaredComparison.Means b.schema ⟨b.conjunction, field, b.negated, operator, operand⟩ part ∧
      b' = { b with
        condition := some (extend b.condition part.1 part.2)
        negated := false } := by
  unfold compare at h
  split at h
  · cases h
  · next field hfield =>
    obtain ⟨accessor, haccessor, h⟩ := bind_eq_ok.1 h
    obtain ⟨f, -, h⟩ := bind_eq_ok.1 h
    cases h
    exact ⟨field, (b.conjunction, _), hfield, ⟨rfl, accessor, haccessor, rfl⟩, rfl⟩

/-- Calls that succeed add what they declare to the row that there was. -/
theorem exists_row {calls : List ConditionCall} {row : List (Conjunction × Condition)}
    (hrow : b.condition = Condition.ofRow row) (h : calls.foldlM call b = .ok b') :
    ∃ more, List.Forall₂ (DeclaredComparison.Means b.schema)
        (ConditionCall.declared b.field b.conjunction b.negated calls) more ∧
      b'.condition = Condition.ofRow (row ++ more) := by
  induction calls generalizing b row with
  | nil =>
    cases h
    exact ⟨[], .nil, by rw [hrow, List.append_nil]⟩
  | cons c calls ih =>
    rw [List.foldlM_cons] at h
    obtain ⟨b₁, hcall, h⟩ := bind_eq_ok.1 h
    cases c with
    | target field k =>
      cases hcall
      exact ih (b := b.target field k) hrow h
    | negate =>
      cases hcall
      exact ih (b := b.negate) hrow h
    | compare operator operand =>
      obtain ⟨field, part, hfield, hpart, rfl⟩ := exists_of_compare hcall
      have hrow' : some (extend b.condition part.1 part.2) = Condition.ofRow (row ++ [part]) := by
        rw [hrow]
        exact extend_ofRow row part.1 part.2
      obtain ⟨more, hmore, hcondition⟩ := ih hrow' h
      refine ⟨part :: more, ?_, ?_⟩
      · rw [ConditionCall.declared, hfield]
        rw [hfield] at hmore
        exact .cons hpart hmore
      · rw [hcondition, List.append_assoc]
        rfl
    | between low high => cases hcall
    | like pattern => cases hcall

end ConditionBuilder

namespace Selection

/-- A call of a selection is one on its condition, or else it leaves the condition alone. -/
theorem call_cases {sel sel' : Selection} {c : SelectionCall} (h : sel.call c = .ok sel') :
    (∃ d, c = .condition d ∧ sel.builder.call d = .ok sel'.builder) ∨
      (SelectionCall.conditionCalls [c] = [] ∧ sel'.builder = sel.builder) := by
  cases c with
  | condition d =>
    obtain ⟨b, hb, rfl⟩ := map_eq_ok.1 h
    exact .inl ⟨d, rfl, hb⟩
  | orderBy field direction =>
    obtain ⟨accessor, -, hsel⟩ := bind_eq_ok.1 h
    cases hsel
    exact .inr ⟨rfl, rfl⟩
  | skip n =>
    cases h
    exact .inr ⟨rfl, rfl⟩
  | limit n =>
    cases h
    exact .inr ⟨rfl, rfl⟩

/-- The condition of a selection is what its calls on the condition build. -/
theorem foldlM_conditionCalls {place : Nat} {sel sel' : Selection} {calls : List SelectionCall}
    (h : runFrom place sel calls = .ok sel') :
    (SelectionCall.conditionCalls calls).foldlM ConditionBuilder.call sel.builder =
      .ok sel'.builder := by
  induction calls generalizing place sel with
  | nil =>
    cases h
    rfl
  | cons c calls ih =>
    have hsplit : SelectionCall.conditionCalls (c :: calls) =
        SelectionCall.conditionCalls [c] ++ SelectionCall.conditionCalls calls :=
      List.filterMap_append (l := [c])
    rw [runFrom] at h
    split at h
    · next sel₁ hcall =>
      rw [hsplit]
      obtain ⟨d, rfl, hd⟩ | ⟨hnone, hbuilder⟩ := call_cases hcall
      · show (d :: SelectionCall.conditionCalls calls).foldlM ConditionBuilder.call sel.builder = _
        rw [List.foldlM_cons]
        exact bind_eq_ok.2 ⟨sel₁.builder, hd, ih h⟩
      · rw [hnone, List.nil_append, ← hbuilder]
        exact ih h
    · cases h

end Selection

/-! ## Built conditions -/

namespace Condition

theorem leftSpine_of_ofRow {row : List (Conjunction × Condition)} {c : Condition}
    (hrow : ∀ part ∈ row, part.2.IsLeaf) (h : ofRow row = some c) :
    c.LeftSpine ∧ c.leaves = row.map (·.2) := by
  cases row with
  | nil => cases h
  | cons first rest =>
    cases h
    obtain ⟨hfirst, hrest⟩ := List.forall_mem_cons.1 hrow
    refine ⟨LeftSpine.combineAll (.leaf hfirst) hrest, ?_⟩
    rw [leaves_combineAll _ hrest, hfirst.leaves_eq]
    rfl

/-- The calls declare a row of leaves, and the condition, if there is one, leans to the left and
has these leaves in their order. -/
def BuiltFrom (schema : Schema) (calls : List ConditionCall) (condition : Option Condition) :
    Prop :=
  ∃ row, List.Forall₂ (DeclaredComparison.Means schema)
      (ConditionCall.declared none .and false calls) row ∧
    condition = ofRow row ∧ ∀ c, condition = some c → c.LeftSpine ∧ c.leaves = row.map (·.2)

end Condition

theorem ConditionBuilder.builtFrom {schema : Schema} {calls : List ConditionCall}
    {b : ConditionBuilder} (h : calls.foldlM call { schema := schema } = .ok b) :
    Condition.BuiltFrom schema calls b.condition := by
  have hstart : ({ schema := schema } : ConditionBuilder).condition = Condition.ofRow [] := rfl
  obtain ⟨row, hrow, hcondition⟩ := exists_row hstart h
  rw [List.nil_append] at hcondition
  refine ⟨row, hrow, hcondition, fun c hc => ?_⟩
  rw [hcondition] at hc
  exact Condition.leftSpine_of_ofRow (DeclaredComparison.isLeaf_of_forall₂ hrow) hc

/-- **Built conditions lean to the left.**  The condition of a name that parses and every condition
that calls build, on a selection or for a removal, has leaves below its junctions, but for a first
part that is a junction of the other kind, and its leaves are what was declared, in that order.
Such a condition never fails for a junction without parts, and it tells which leaves were combined
and how they were joined. -/
theorem Condition.built_leaning_left :
    (∀ name q, MethodQuery.parse name = .ok q → ∃ first rest, MethodName.Declares name first rest ∧
      q.condition.LeftSpine ∧
      q.condition.leaves = first.toCondition :: rest.map fun part => part.2.toCondition) ∧
    (∀ schema calls b, calls.foldlM ConditionBuilder.call { schema := schema } = .ok b →
      BuiltFrom schema calls b.condition) ∧
    (∀ schema calls sel, Selection.run { builder := { schema := schema } } calls = .ok sel →
      BuiltFrom schema (SelectionCall.conditionCalls calls) sel.builder.condition) ∧
    (∀ c : Condition, c.LeftSpine →
      ∀ schema args, c.bind schema args ≠ .error .emptyJunction) ∧
    ∀ (first first' : Condition) (rest rest' : List (Conjunction × Condition)),
      first.IsLeaf → (∀ next ∈ rest, next.2.IsLeaf) →
      first'.IsLeaf → (∀ next ∈ rest', next.2.IsLeaf) →
      first.combineAll rest = first'.combineAll rest' → first = first' ∧ rest = rest' := by
  refine ⟨?_, ?_, ?_, ?_, ?_⟩
  · intro name q h
    obtain ⟨first, rest, hdeclares, hq⟩ := MethodQuery.exists_declares h
    have hrow : ∀ part ∈ (.and, first.toCondition) :: rest.map MethodName.conditionOf,
        part.2.IsLeaf :=
      List.forall_mem_cons.2 ⟨first.isLeaf_toCondition,
        List.forall_mem_map.2 fun part _ => part.2.isLeaf_toCondition⟩
    obtain ⟨hspine, hleaves⟩ := leftSpine_of_ofRow hrow rfl
    rw [← hq] at hspine hleaves
    rw [List.map_cons, List.map_map] at hleaves
    exact ⟨first, rest, hdeclares, hspine, hleaves⟩
  · intro schema calls b h
    exact ConditionBuilder.builtFrom h
  · intro schema calls sel h
    exact ConditionBuilder.builtFrom (Selection.foldlM_conditionCalls h)
  · intro c hc schema args
    exact hc.wellFormed.bind_ne_emptyJunction schema args
  · intro first first' rest rest' hfirst hrest hfirst' hrest' h
    exact combineAll_inj hfirst hrest hfirst' hrest' h

/-- A name and calls that mix the conjunctions.  The calls compare one field twice, the second time
negated. -/
theorem Condition.built_leaning_left_mixed :
    let edition : Accessor := ⟨"edition", "Book", "Book", fun r => .integer (.ofNat r.id)⟩
    let schema : Schema := ⟨"Book", "Book", edition, []⟩
    let isEdition (n : Int64) : Condition := .comparison "edition" .eq (.literal (.integer n))
    let calls : List ConditionCall := [.target "edition" .or, .compare .eq (.integer 1), .negate,
      .compare .eq (.integer 2), .target "edition" .and, .compare .eq (.integer 3)]
    let built : Condition := .conj [.disj [isEdition 1, .neg (isEdition 2)], isEdition 3]
    (∃ q, MethodQuery.parse "findByTitleNotInOrActiveTrueAndEdition" = .ok q ∧
      q.condition.LeftSpine) ∧
    (∃ b, calls.foldlM ConditionBuilder.call { schema := schema } = .ok b ∧
      b.condition = some built ∧ built.LeftSpine ∧
      ∀ args, built.bind schema args ≠ .error .emptyJunction) ∧
    (isEdition 1).combineAll [(.or, isEdition 2), (.and, isEdition 3)] ≠
      (isEdition 1).combineAll [(.and, isEdition 2), (.or, isEdition 3)] := by
  intro edition schema isEdition calls built
  obtain ⟨hname, hcalls, -, hbind, hinj⟩ := built_leaning_left
  refine ⟨?_, ?_, ?_⟩
  · obtain ⟨first, rest, -, hspine, -⟩ := hname "findByTitleNotInOrActiveTrueAndEdition" _ rfl
    exact ⟨_, rfl, hspine⟩
  · obtain ⟨row, -, -, hbuilt⟩ := hcalls schema calls _ rfl
    obtain ⟨hspine, -⟩ := hbuilt built rfl
    exact ⟨_, rfl, rfl, hspine, hbind built hspine schema⟩
  · intro h
    have hleaf (n : Int64) : (isEdition n).IsLeaf := .comparison _ _ _
    have hrow (k k' : Conjunction) :
        ∀ next ∈ [(k, isEdition 2), (k', isEdition 3)], next.2.IsLeaf :=
      List.forall_mem_cons.2 ⟨hleaf 2, List.forall_mem_singleton.2 (hleaf 3)⟩
    obtain ⟨-, hrest⟩ := hinj _ _ _ _ (hleaf 1) (hrow .or .and) (hleaf 1) (hrow .and .or) h
    cases hrest

end EntityStore
