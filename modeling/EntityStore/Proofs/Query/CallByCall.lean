import EntityStore.Paging.PageRequest
import EntityStore.Proofs.Condition.Twins
import EntityStore.Query.Chain

/-!
# Selections built call by call

Every call keeps a selection in step with what is asked for: a condition with its values, sort keys
and a window.  The calls that add a criterion or a sort key succeed where the schema knows the
field, and what the selection finds depends only on what is asked for.

    schema.resolve criterion.field = .ok accessor →
      Builds (Asks schema c values keys skip limit) (criterion.calls k)
        (Asks schema (c.combine k criterion.condition) (values ++ criterion.values) keys skip limit)
                                                                                   (builds_next)
    Asks schema c values keys skip limit sel →
      sel.result s = do …                                                    (Asks.result_eq)
-/

namespace EntityStore

/-! ## Calls -/

/-- The calls that add a criterion to a selection. -/
def Criterion.calls (k : Conjunction) (criterion : Criterion) : List SelectionCall :=
  .condition (.target criterion.field k) ::
    ((if criterion.negated then [.condition .negate] else []) ++
      [.condition (.compare criterion.suffix.operator criterion.value)])

/-- The calls that cut out a page. -/
def Selection.pageCalls : Option PageRequest → List SelectionCall
  | some r => [.skip r.skip, .limit r.size.toNat]
  | none => []

/-! ## Sort keys -/

/-- Two rows of keys sort alike where their keys mean the same attributes, each in the same
direction. -/
theorem SortKey.recordComparators_congr {schema : Schema} {keys keys' : List SortKey}
    (h : keys.map (comparator schema) = keys'.map (comparator schema)) :
    recordComparators schema keys = recordComparators schema keys' := by
  have hempty : keys.isEmpty = keys'.isEmpty := by
    rw [← List.isEmpty_map, h, List.isEmpty_map]
  have hcomparators (keys : List SortKey) :
      comparators schema keys = (keys.map (comparator schema)).mapM id := by
    rw [List.mapM_map]
    rfl
  rw [recordComparators, recordComparators, hempty, hcomparators, hcomparators, h]

/-! ## Building -/

theorem ConditionBuilder.compare_eq {b : ConditionBuilder} {field : String} {accessor : Accessor}
    {operator : Operator} {v : Value} {f : Filter} (hfield : b.field = some field)
    (h : b.schema.resolve field = .ok accessor) (hf : Filter.compare operator v accessor = .ok f) :
    b.compare operator v = .ok { b with
      condition := some (extend b.condition b.conjunction
        (if b.negated then .neg (.comparison accessor.name operator (.literal v))
          else .comparison accessor.name operator (.literal v)))
      negated := false } := by
  simp only [compare, hfield, h, hf, Bind.bind, Except.bind, pure, Except.pure]

namespace Selection

/-- From every selection with the first property the calls succeed, wherever their row starts, and
lead to one with the second. -/
def Builds (P : Selection → Prop) (calls : List SelectionCall) (Q : Selection → Prop) : Prop :=
  ∀ place sel, P sel → ∃ sel', runFrom place sel calls = .ok sel' ∧ Q sel'

theorem Builds.append {P Q R : Selection → Prop} {xs ys : List SelectionCall}
    (hxs : Builds P xs Q) (hys : Builds Q ys R) : Builds P (xs ++ ys) R := by
  intro place sel hsel
  obtain ⟨sel', hrun, hsel'⟩ := hxs place sel hsel
  obtain ⟨sel'', hrun', hsel''⟩ := hys (place + xs.length) sel' hsel'
  refine ⟨sel'', ?_, hsel''⟩
  rw [runFrom_append, hrun]
  exact hrun'

/-- The selection asks for what a condition with its values, sort keys and a window ask for. -/
structure Asks (schema : Schema) (c : Condition) (values : List Value) (keys : List SortKey)
    (skip limit : Nat) (sel : Selection) : Prop where
  schema_eq : sel.builder.schema = schema
  /-- No negation waits for a comparison. -/
  negated_eq : sel.builder.negated = false
  condition : ∃ d, sel.builder.condition = some d ∧ c.Twins schema values d
  /-- A key may call its attribute by another name. -/
  sorts : sel.sorts.map (SortKey.comparator schema) = keys.map (SortKey.comparator schema)
  skip_eq : sel.skip = skip
  limit_eq : sel.limit = limit

/-- The calls of a criterion add it and leave no negation behind. -/
theorem runFrom_criterion {sel : Selection} {criterion : Criterion} {accessor : Accessor}
    (place : Nat) (k : Conjunction) (hnegated : sel.builder.negated = false)
    (h : sel.builder.schema.resolve criterion.field = .ok accessor) :
    runFrom place sel (criterion.calls k) = .ok { sel with builder := { sel.builder with
      condition := some (ConditionBuilder.extend sel.builder.condition k
        (criterion.literal accessor))
      field := some criterion.field
      conjunction := k } } := by
  obtain ⟨f, hf⟩ := MethodName.Suffix.exists_compare criterion.admitted accessor
  obtain ⟨⟨schema, condition, field, conjunction, negated⟩, sorts, skip, limit⟩ := sel
  cases hnegated
  have hcompare (negated : Bool) := ConditionBuilder.compare_eq
    (b := ⟨schema, condition, some criterion.field, k, negated⟩) rfl h hf
  unfold Criterion.calls Criterion.literal Criterion.signed
  cases criterion.negated with
  | false =>
    show runFrom place _ [.condition (.target _ _), .condition (.compare _ _)] = _
    simp only [runFrom, call, ConditionBuilder.call, ConditionBuilder.target, Except.map, hcompare]
  | true =>
    show runFrom place _ [.condition (.target _ _), .condition .negate,
      .condition (.compare _ _)] = _
    simp only [runFrom, call, ConditionBuilder.call, ConditionBuilder.target,
      ConditionBuilder.negate, Except.map, hcompare]

section
variable {schema : Schema} {c : Condition} {values : List Value} {keys : List SortKey}
  {skip limit : Nat}

theorem builds_first {criterion : Criterion} {accessor : Accessor}
    (h : schema.resolve criterion.field = .ok accessor) :
    Builds (· = { builder := { schema := schema } }) (criterion.calls .and)
      (Asks schema criterion.condition criterion.values [] 0 0) := by
  rintro place sel rfl
  refine ⟨_, runFrom_criterion place .and rfl h, ?_⟩
  exact ⟨rfl, rfl, ⟨_, rfl, Criterion.twins h⟩, rfl, rfl, rfl⟩

theorem builds_next {criterion : Criterion} {accessor : Accessor}
    (h : schema.resolve criterion.field = .ok accessor) (k : Conjunction) :
    Builds (Asks schema c values keys skip limit) (criterion.calls k)
      (Asks schema (c.combine k criterion.condition) (values ++ criterion.values) keys
        skip limit) := by
  rintro place sel ⟨rfl, hnegated, ⟨d, hd, htwins⟩, hsorts, hskip, hlimit⟩
  refine ⟨_, runFrom_criterion place k hnegated h, ?_⟩
  refine ⟨rfl, hnegated, ⟨_, rfl, ?_⟩, hsorts, hskip, hlimit⟩
  rw [hd]
  exact htwins.combine (Criterion.twins h) k

theorem builds_rest {rest : List (Conjunction × Criterion)}
    (h : ∀ next ∈ rest, ∃ accessor, schema.resolve next.2.field = .ok accessor) :
    Builds (Asks schema c values keys skip limit)
      (rest.flatMap fun next => next.2.calls next.1)
      (Asks schema (c.combineAll (rest.map fun next => (next.1, next.2.condition)))
        (values ++ rest.flatMap (·.2.values)) keys skip limit) := by
  -- Each criterion adds to the condition and to the values, so the induction is over all of these.
  induction rest generalizing c values with
  | nil =>
    intro place sel hsel
    exact ⟨sel, rfl, by rwa [List.flatMap_nil, List.append_nil]⟩
  | cons next rest ih =>
    rw [List.forall_mem_cons] at h
    obtain ⟨accessor, haccessor⟩ := h.1
    rw [List.flatMap_cons, List.flatMap_cons, ← List.append_assoc]
    exact (builds_next haccessor next.1).append (ih h.2)

/-- A selection sorts by the attribute that a key means, whatever the key calls it. -/
theorem builds_orderBy {key : SortKey} {accessor : Accessor}
    (h : schema.resolve key.property = .ok accessor) :
    Builds (Asks schema c values keys skip limit) [.orderBy key.property key.direction]
      (Asks schema c values (keys ++ [key]) skip limit) := by
  rintro place sel ⟨rfl, hnegated, hcondition, hsorts, hskip, hlimit⟩
  have hcall : sel.orderBy key.property key.direction =
      .ok { sel with sorts := sel.sorts ++ [⟨accessor.name, key.direction⟩] } := by
    simp only [orderBy, h, Bind.bind, Except.bind, pure, Except.pure]
  refine ⟨{ sel with sorts := sel.sorts ++ [⟨accessor.name, key.direction⟩] }, ?_,
    rfl, hnegated, hcondition, ?_, hskip, hlimit⟩
  · simp only [runFrom, call, hcall]
  · rw [List.map_append, List.map_append, hsorts]
    simp only [List.map_cons, List.map_nil, SortKey.comparator, h, Schema.resolve_name h]

theorem builds_sorts {keys' : List SortKey}
    (h : ∀ key ∈ keys', ∃ accessor, schema.resolve key.property = .ok accessor) :
    Builds (Asks schema c values keys skip limit)
      (keys'.map fun key => .orderBy key.property key.direction)
      (Asks schema c values (keys ++ keys') skip limit) := by
  induction keys' generalizing keys with
  | nil =>
    intro place sel hsel
    rw [List.append_nil]
    exact ⟨sel, rfl, hsel⟩
  | cons key keys' ih =>
    rw [List.forall_mem_cons] at h
    obtain ⟨accessor, haccessor⟩ := h.1
    rw [List.append_cons]
    exact (builds_orderBy haccessor).append (ih h.2)

theorem builds_page (request : Option PageRequest) :
    Builds (Asks schema c values keys 0 0) (pageCalls request)
      (Asks schema c values keys (request.elim 0 PageRequest.skip)
        (request.elim 0 (·.size.toNat))) := by
  intro place sel hsel
  cases request with
  | none => exact ⟨sel, rfl, hsel⟩
  | some r =>
    exact ⟨_, rfl, hsel.schema_eq, hsel.negated_eq, hsel.condition, hsel.sorts, rfl, rfl⟩

end

/-- What is found depends on what is asked for, not on how it is written down. -/
theorem Asks.result_eq {schema : Schema} {c : Condition} {values : List Value}
    {keys : List SortKey} {skip limit : Nat} {sel : Selection}
    (h : Asks schema c values keys skip limit sel) (s : Store) :
    sel.result s = (do
      let f ← c.recordFilter schema values
      let cs ← SortKey.recordComparators schema keys
      let records ← s.select f cs skip limit
      pure (schema.instances records)) := by
  obtain ⟨rfl, -, ⟨d, hd, htwins⟩, hsorts, rfl, rfl⟩ := h
  obtain ⟨f, hc, hbind⟩ := htwins.bind
  have hbuilt : sel.builder.filter = c.recordFilter sel.builder.schema values := by
    have hbound := hc []
    rw [List.append_nil] at hbound
    simp only [ConditionBuilder.filter, hd, Condition.recordFilter, hbind, hbound]
  rw [result, hbuilt, SortKey.recordComparators_congr hsorts]

end Selection

end EntityStore
