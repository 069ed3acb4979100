import EntityStore.MethodName.Clause
import EntityStore.Proofs.Condition.Comparisons

/-!
# Conditions that are twins

A criterion that a name declares waits for its value; the same criterion, when it is built by calls,
has the value in it and calls its field by the name of the attribute that was found.  Once the first
is brought the values, both bind to one filter, and combining keeps it so.

    c.Twins schema values d → c'.Twins schema values' d' →
      (c.combine k c').Twins schema (values ++ values') (d.combine k d')           (Twins.combine)
    schema.resolve criterion.field = .ok accessor →
      criterion.condition.Twins schema criterion.values (criterion.literal accessor)
                                                                                (Criterion.twins)
-/

namespace EntityStore

/-! ## Conditions -/

/-- The first condition, once it is brought the values, and the second, which asks for none, bind to
one filter. -/
structure Condition.Twins (schema : Schema) (c : Condition) (values : List Value) (d : Condition) :
    Prop where
  hasParts : c.HasParts
  hasParts' : d.HasParts
  bind : ∃ f, (∀ args, c.bind schema (values ++ args) = .ok (f, args)) ∧
    d.bind schema [] = .ok (f, [])

namespace Condition

section
variable {schema : Schema} {c d c' d' : Condition} {values values' : List Value}

theorem Twins.neg (h : Twins schema c values d) : Twins schema (.neg c) values (.neg d) := by
  obtain ⟨f, hc, hd⟩ := h.bind
  refine ⟨trivial, trivial, f.not, ?_, ?_⟩
  · intro args
    rw [Condition.bind, hc]
    rfl
  · rw [Condition.bind, hd]
    rfl

/-- What is combined with twins stays twins. -/
theorem Twins.combine (h : Twins schema c values d) (h' : Twins schema c' values' d')
    (k : Conjunction) :
    Twins schema (c.combine k c') (values ++ values') (d.combine k d') := by
  obtain ⟨f, hc, hd⟩ := h.bind
  obtain ⟨g, hc', hd'⟩ := h'.bind
  refine ⟨hasParts_combine _ _ _, hasParts_combine _ _ _, Filter.join k f g, ?_, ?_⟩
  · intro args
    rw [bind_combine h.hasParts, List.append_assoc, hc]
    show (c'.bind schema (values' ++ args) >>= _) = _
    rw [hc']
    rfl
  · rw [bind_combine h.hasParts', hd]
    show (d'.bind schema [] >>= _) = _
    rw [hd']
    rfl

theorem bind_comparison {field : String} {operator : Operator} {operand : Operand}
    {accessor : Accessor} {args rest : List Value} {v : Value} {f : Filter}
    (hfield : schema.resolve field = .ok accessor) (hv : operand.take args = .ok (v, rest))
    (hf : Filter.compare operator v accessor = .ok f) :
    (comparison field operator operand).bind schema args = .ok (f, rest) :=
  Comparison.bind_eq_ok_iff (l := ⟨field, operator, operand⟩).2 ⟨accessor, v, hfield, hv, hf⟩

end

end Condition

/-- The name of an attribute means that attribute. -/
theorem Schema.resolve_name {schema : Schema} {name : String} {accessor : Accessor}
    (h : schema.resolve name = .ok accessor) : schema.resolve accessor.name = .ok accessor := by
  apply resolve_eq_of_field?
  unfold resolve at h
  split at h
  · next hfield =>
    cases h
    rw [name_of_field? hfield]
    exact hfield
  · split at h
    · next hfield =>
      cases h
      rw [name_of_field? hfield]
      exact hfield
    · cases h

/-! ## Criteria -/

/-- The values that a clause with the suffix compares its field with. -/
def MethodName.Suffix.Admits : Suffix → Value → Prop
  | isTrue, v => v = .boolean true
  | isFalse, v => v = .boolean false
  | isIn, v => ∃ items, v = .list items
  | _, v => v.isNull = false

theorem MethodName.Suffix.exists_compare {suffix : Suffix} {v : Value} (h : suffix.Admits v)
    (accessor : Accessor) : ∃ f, Filter.compare suffix.operator v accessor = .ok f := by
  cases suffix with
  | isTrue | isFalse =>
    cases h
    exact ⟨_, rfl⟩
  | isIn =>
    obtain ⟨items, rfl⟩ := h
    exact ⟨_, rfl⟩
  | equal | lessThan | lessThanEqual | greaterThan | greaterThanEqual =>
    have hv : v.isNull = false := h
    simp [Filter.compare, operator, hv]

/-- A comparison that can be asked for either way. -/
structure Criterion where
  field : String
  negated : Bool
  suffix : MethodName.Suffix
  value : Value
  admitted : suffix.Admits value

namespace Criterion

def signed (criterion : Criterion) (leaf : Condition) : Condition :=
  if criterion.negated then .neg leaf else leaf

/-- The condition that a name declares. -/
def condition (criterion : Criterion) : Condition :=
  criterion.signed
    (.comparison criterion.field criterion.suffix.operator criterion.suffix.operand)

/-- What a call of the name brings: nothing where the suffix names the value. -/
def values (criterion : Criterion) : List Value :=
  match criterion.suffix.operand with
  | .parameter => [criterion.value]
  | .literal _ => []

/-- The condition with the value in it, on the attribute that was found. -/
def literal (criterion : Criterion) (accessor : Accessor) : Condition :=
  criterion.signed
    (.comparison accessor.name criterion.suffix.operator (.literal criterion.value))

/-- Each operand takes the value that was brought for it and leaves the rest. -/
theorem take_values (criterion : Criterion) (args : List Value) :
    criterion.suffix.operand.take (criterion.values ++ args) = .ok (criterion.value, args) := by
  obtain ⟨field, negated, suffix, value, h⟩ := criterion
  cases suffix with
  | isTrue | isFalse =>
    cases h
    rfl
  | isIn | equal | lessThan | lessThanEqual | greaterThan | greaterThanEqual => rfl

theorem twins {schema : Schema} {criterion : Criterion} {accessor : Accessor}
    (h : schema.resolve criterion.field = .ok accessor) :
    criterion.condition.Twins schema criterion.values (criterion.literal accessor) := by
  obtain ⟨f, hf⟩ := MethodName.Suffix.exists_compare criterion.admitted accessor
  have hleaf : Condition.Twins schema
      (.comparison criterion.field criterion.suffix.operator criterion.suffix.operand)
      criterion.values
      (.comparison accessor.name criterion.suffix.operator (.literal criterion.value)) := by
    refine ⟨trivial, trivial, f, ?_, ?_⟩
    · intro args
      exact Condition.bind_comparison h (criterion.take_values args) hf
    · exact Condition.bind_comparison (Schema.resolve_name h) rfl hf
  unfold condition literal signed
  cases criterion.negated with
  | false => exact hleaf
  | true => exact hleaf.neg

theorem fields_condition (criterion : Criterion) :
    criterion.condition.fields = [criterion.field] := by
  unfold condition signed
  cases criterion.negated with
  | false => rfl
  | true => rfl

end Criterion

end EntityStore
