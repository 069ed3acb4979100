import EntityStore.Condition.Filter

/-!
# Binding conditions

Binding turns a condition into a filter: each field is looked up in a schema, and each parameter
takes the next of the values that a call brought.  What is left of the values is returned.

    c.bind schema args = .ok (f, rest) → args.length = c.parameterCount + rest.length
                                                                           (length_bind)
-/

namespace EntityStore

/-- The value of an operand, and the values left for later operands. -/
def Operand.take : Operand → List Value → Except Failure (Value × List Value)
  | .literal v, args => .ok (v, args)
  | .parameter, v :: args => .ok (v, args)
  | .parameter, [] => .error .missingArguments

theorem Operand.length_take {operand : Operand} {args rest : List Value} {v : Value}
    (h : operand.take args = .ok (v, rest)) :
    args.length = operand.parameterCount + rest.length := by
  cases operand with
  | literal w => cases h; simp [Operand.parameterCount]
  | parameter =>
    cases args with
    | nil => cases h
    | cons w ws => cases h; simp [Operand.parameterCount]; omega

namespace Condition

mutual

def bind (schema : Schema) : Condition → List Value → Except Failure (Filter × List Value)
  | comparison field operator operand, args => do
    let accessor ← schema.resolve field
    let (v, args) ← operand.take args
    let f ← Filter.compare operator v accessor
    pure (f, args)
  | conj parts, args => bindParts schema .and parts args
  | disj parts, args => bindParts schema .or parts args
  | neg inner, args => do
    let (f, args) ← bind schema inner args
    pure (f.not, args)

/-- Binds the parts of a junction, of which there must be one at least. -/
def bindParts (schema : Schema) (k : Conjunction) :
    List Condition → List Value → Except Failure (Filter × List Value)
  | [], _ => .error .emptyJunction
  | c :: cs, args => do
    let (f, args) ← bind schema c args
    bindRest schema k f cs args

/-- Joins the filters of further parts to `f`. -/
def bindRest (schema : Schema) (k : Conjunction) (f : Filter) :
    List Condition → List Value → Except Failure (Filter × List Value)
  | [], args => .ok (f, args)
  | c :: cs, args => do
    let (g, args) ← bind schema c args
    bindRest schema k (Filter.join k f g) cs args

end

/-- The condition, bound to the values of a call, as a filter of records of any type. -/
def recordFilter (schema : Schema) (c : Condition) (args : List Value) : Except Failure Filter :=
  (c.bind schema args).map fun bound => bound.1.onInstances schema

/-- Every field names an attribute; else the failure of the first that does not. -/
def checkFields (schema : Schema) (c : Condition) : Except Failure Unit :=
  c.fields.forM fun field => (schema.resolve field).map fun _ => ()

/-! ## Lemmas -/

mutual

theorem length_bind {schema : Schema} : ∀ {c : Condition} {args rest : List Value} {f : Filter},
    c.bind schema args = .ok (f, rest) → args.length = c.parameterCount + rest.length
  | comparison field operator operand, args, rest, f, h => by
    simp only [bind, Bind.bind, Except.bind, pure, Except.pure] at h
    split at h
    · cases h
    · split at h
      · cases h
      · next p hp =>
        split at h
        · cases h
        · cases h; exact Operand.length_take hp
  | conj parts, args, rest, f, h => by
    rw [bind] at h; rw [parameterCount]; exact length_bindParts h
  | disj parts, args, rest, f, h => by
    rw [bind] at h; rw [parameterCount]; exact length_bindParts h
  | neg inner, args, rest, f, h => by
    simp only [bind, Bind.bind, Except.bind, pure, Except.pure] at h
    split at h
    · cases h
    · next p hp => cases h; rw [parameterCount]; exact length_bind hp

theorem length_bindParts {schema : Schema} {k : Conjunction} :
    ∀ {parts : List Condition} {args rest : List Value} {f : Filter},
    bindParts schema k parts args = .ok (f, rest) →
      args.length = parameterCounts parts + rest.length
  | [], args, rest, f, h => by simp [bindParts] at h
  | c :: cs, args, rest, f, h => by
    simp only [bindParts, Bind.bind, Except.bind] at h
    split at h
    · cases h
    · next p hp =>
      have h1 := length_bind hp
      have h2 := length_bindRest h
      rw [parameterCounts]; omega

theorem length_bindRest {schema : Schema} {k : Conjunction} :
    ∀ {parts : List Condition} {g : Filter} {args rest : List Value} {f : Filter},
    bindRest schema k g parts args = .ok (f, rest) →
      args.length = parameterCounts parts + rest.length
  | [], g, args, rest, f, h => by
    simp only [bindRest, Except.ok.injEq, Prod.mk.injEq] at h
    simp [parameterCounts, h.2]
  | c :: cs, g, args, rest, f, h => by
    simp only [bindRest, Bind.bind, Except.bind] at h
    split at h
    · cases h
    · next p hp =>
      have h1 := length_bind hp
      have h2 := length_bindRest h
      rw [parameterCounts]; omega

end

end Condition

end EntityStore
