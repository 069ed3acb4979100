import EntityStore.Proofs.Condition.LeftToRight
import EntityStore.Proofs.Outcome

/-!
# The comparisons of a condition

However a condition is nested, it binds as the row of its comparisons does, from left to right: with
the same failure, or leaving the same values, and then its filter fails on a record only as the
filter of one of the comparisons does.

    c.WellFormed → Agrees (c.bind schema args) (Comparison.bindAll schema c.comparisons args)
                                                                                     (agrees_bind)
    (Comparison.parameters c.comparisons).length = c.parameterCount             (length_parameters)
    (c.combineAll rest).comparisons = c.comparisons ++ rest.flatMap (·.2.comparisons)
                                                                          (comparisons_combineAll)
-/

namespace EntityStore

/-! ## Comparisons -/

structure Comparison where
  field : String
  operator : Operator
  operand : Operand
deriving DecidableEq

/-- What a field can be compared with: no operand is `null`, and membership asks for a list. -/
def Operator.Allows (operator : Operator) (v : Value) : Prop :=
  v ≠ .null ∧ (operator = .isIn → v.kind = .list)

instance (operator : Operator) (v : Value) : Decidable (operator.Allows v) :=
  inferInstanceAs (Decidable (_ ∧ _))

theorem Filter.exists_compare_iff {operator : Operator} {v : Value} {accessor : Accessor} :
    (∃ f, Filter.compare operator v accessor = .ok f) ↔ operator.Allows v := by
  unfold Filter.compare Operator.Allows
  rw [Ne, ← Value.isNull_iff, Bool.not_eq_true]
  cases v.isNull with
  | true => simp
  | false =>
    cases operator with
    | isIn => cases v <;> simp [Value.kind]
    | _ => simp

namespace Comparison

variable {schema : Schema} {l : Comparison} {ls : List Comparison} {args rest : List Value}

def bind (schema : Schema) (l : Comparison) (args : List Value) :
    Except Failure (Filter × List Value) :=
  (Condition.comparison l.field l.operator l.operand).bind schema args

/-- Binds comparisons one after the other, each to the values that those before it left. -/
def bindAll (schema : Schema) : List Comparison → List Value →
    Except Failure (List Filter × List Value)
  | [], args => .ok ([], args)
  | l :: ls, args => do
    let bound ← l.bind schema args
    let others ← bindAll schema ls bound.2
    pure (bound.1 :: others.1, others.2)

/-- The comparisons that wait for a value. -/
def parameters (ls : List Comparison) : List Comparison := ls.filter (·.operand = .parameter)

/-- The comparison is one of the row, and the value is the one that it compares its field with: its
own, or the one that is brought for it. -/
def Takes (ls : List Comparison) (args : List Value) (l : Comparison) (v : Value) : Prop :=
  (l ∈ ls ∧ l.operand = .literal v) ∨ (l, v) ∈ (parameters ls).zip args

theorem bind_eq_ok_iff {f : Filter} :
    l.bind schema args = .ok (f, rest) ↔ ∃ accessor v, schema.resolve l.field = .ok accessor ∧
      l.operand.take args = .ok (v, rest) ∧ Filter.compare l.operator v accessor = .ok f := by
  unfold bind Condition.bind
  rw [bind_eq_ok]
  constructor
  · rintro ⟨accessor, hfield, h⟩
    obtain ⟨⟨v, rest'⟩, hv, h⟩ := bind_eq_ok.1 h
    obtain ⟨f', hf, h⟩ := bind_eq_ok.1 h
    cases h
    exact ⟨accessor, v, hfield, hv, hf⟩
  · rintro ⟨accessor, v, hfield, hv, hf⟩
    exact ⟨accessor, hfield, bind_eq_ok.2 ⟨_, hv, bind_eq_ok.2 ⟨f, hf, rfl⟩⟩⟩

theorem bindAll_cons_eq_ok {fs : List Filter} :
    bindAll schema (l :: ls) args = .ok (fs, rest) ↔
      ∃ f fs' args', l.bind schema args = .ok (f, args') ∧
        bindAll schema ls args' = .ok (fs', rest) ∧ fs = f :: fs' := by
  rw [bindAll, bind_eq_ok]
  constructor
  · rintro ⟨⟨f, args'⟩, hf, h⟩
    obtain ⟨⟨fs', rest'⟩, hfs, h⟩ := bind_eq_ok.1 h
    cases h
    exact ⟨f, fs', args', hf, hfs, rfl⟩
  · rintro ⟨f, fs', args', hf, hfs, rfl⟩
    exact ⟨_, hf, bind_eq_ok.2 ⟨_, hfs, rfl⟩⟩

theorem bindAll_append (ls ms : List Comparison) (args : List Value) :
    bindAll schema (ls ++ ms) args = (do
      let bound ← bindAll schema ls args
      let others ← bindAll schema ms bound.2
      pure (bound.1 ++ others.1, others.2)) := by
  induction ls generalizing args with
  | nil => exact (bind_pure _).symm
  | cons l ls ih =>
    simp only [List.cons_append, bindAll, ih, bind_assoc, pure_bind]

/-! ### Operands -/

theorem length_parameters_cons (l : Comparison) (ls : List Comparison) :
    (parameters (l :: ls)).length = l.operand.parameterCount + (parameters ls).length := by
  obtain ⟨field, operator, operand⟩ := l
  cases operand with
  | parameter => exact Nat.add_comm _ _
  | literal v => exact (Nat.zero_add _).symm

theorem takes_head {v : Value} (h : l.operand.take args = .ok (v, rest)) :
    Takes (l :: ls) args l v := by
  obtain ⟨field, operator, operand⟩ := l
  cases operand with
  | literal w =>
    cases h
    exact .inl ⟨List.mem_cons_self, rfl⟩
  | parameter =>
    cases args with
    | nil => cases h
    | cons w args =>
      cases h
      exact .inr List.mem_cons_self

theorem Takes.tail {v w : Value} {m : Comparison} (h : l.operand.take args = .ok (v, rest))
    (hm : Takes ls rest m w) : Takes (l :: ls) args m w := by
  rcases hm with ⟨hmem, hw⟩ | hzip
  · exact .inl ⟨List.mem_cons_of_mem l hmem, hw⟩
  · obtain ⟨field, operator, operand⟩ := l
    cases operand with
    | literal w =>
      cases h
      exact .inr hzip
    | parameter =>
      cases args with
      | nil => cases h
      | cons w args =>
        cases h
        exact .inr (List.mem_cons_of_mem _ hzip)

/-- All that is bound is a comparison with the value that it takes. -/
theorem exists_of_mem_bindAll {fs : List Filter} {f : Filter}
    (h : bindAll schema ls args = .ok (fs, rest)) (hf : f ∈ fs) :
    ∃ l v accessor, Takes ls args l v ∧ schema.resolve l.field = .ok accessor ∧
      Filter.compare l.operator v accessor = .ok f := by
  induction ls generalizing args fs with
  | nil =>
    cases h
    cases hf
  | cons l ls ih =>
    obtain ⟨g, fs', args', hg, hfs, rfl⟩ := bindAll_cons_eq_ok.1 h
    obtain ⟨accessor, v, hfield, hv, hcompare⟩ := bind_eq_ok_iff.1 hg
    rcases List.mem_cons.1 hf with rfl | hf
    · exact ⟨l, v, accessor, takes_head hv, hfield, hcompare⟩
    · obtain ⟨m, w, accessor', hm, hm'⟩ := ih hfs hf
      exact ⟨m, w, accessor', hm.tail hv, hm'⟩

theorem exists_take {operand : Operand} (h : operand.parameterCount ≤ args.length) :
    ∃ v rest, operand.take args = .ok (v, rest) := by
  cases operand with
  | literal v => exact ⟨v, args, rfl⟩
  | parameter =>
    cases args with
    | nil => cases h
    | cons v args => exact ⟨v, args, rfl⟩

/-- Comparisons of attributes can be bound where there are enough values and each value is one that
its comparison allows. -/
theorem exists_bindAll (hfields : ∀ l ∈ ls, ∃ accessor, schema.resolve l.field = .ok accessor)
    (hcount : (parameters ls).length ≤ args.length)
    (hvalues : ∀ l v, Takes ls args l v → l.operator.Allows v) :
    ∃ bound, bindAll schema ls args = .ok bound := by
  induction ls generalizing args with
  | nil => exact ⟨_, rfl⟩
  | cons l ls ih =>
    rw [List.forall_mem_cons] at hfields
    rw [length_parameters_cons] at hcount
    obtain ⟨accessor, hfield⟩ := hfields.1
    obtain ⟨v, args', hv⟩ := exists_take (Nat.le_of_add_right_le hcount)
    obtain ⟨f, hf⟩ := Filter.exists_compare_iff.2 (hvalues l v (takes_head hv))
    have hleft : (parameters ls).length ≤ args'.length := by
      have hlength := Operand.length_take hv
      omega
    obtain ⟨⟨fs, rest⟩, hfs⟩ :=
      ih hfields.2 hleft fun m w hm => hvalues m w (hm.tail hv)
    exact ⟨_, bindAll_cons_eq_ok.2
      ⟨f, fs, args', bind_eq_ok_iff.2 ⟨accessor, v, hfield, hv, hf⟩, hfs, rfl⟩⟩

end Comparison

/-! ## Filters -/

namespace Filter

/-- Wherever the filter fails, one of the filters fails alike. -/
def FailsAs (f : Filter) (fs : List Filter) : Prop :=
  ∀ r failure, f r = .error failure → ∃ g ∈ fs, g r = .error failure

variable {f g : Filter} {fs gs : List Filter}

theorem failsAs_self (f : Filter) : f.FailsAs [f] :=
  fun _ _ h => ⟨f, List.mem_cons_self, h⟩

theorem FailsAs.not (h : f.FailsAs fs) : f.not.FailsAs fs := by
  intro r failure hfailure
  rcases bind_eq_error.1 hfailure with hf | ⟨b, -, hb⟩
  · exact h r failure hf
  · cases hb

theorem FailsAs.join (hf : f.FailsAs fs) (hg : g.FailsAs gs) (k : Conjunction) :
    (Filter.join k f g).FailsAs (fs ++ gs) := by
  intro r failure h
  -- The outcome is that of one of the two.
  have hone : f r = .error failure ∨ g r = .error failure := by
    rw [join_apply] at h
    unfold Conjunction.outcome at h
    split at h
    · exact .inr h
    · exact .inr h
    · exact .inl h
  rcases hone with h | h
  · obtain ⟨f', hf', h⟩ := hf r failure h
    exact ⟨f', List.mem_append_left gs hf', h⟩
  · obtain ⟨g', hg', h⟩ := hg r failure h
    exact ⟨g', List.mem_append_right fs hg', h⟩

end Filter

/-! ## Conditions -/

namespace Condition

mutual

/-- The comparisons, from left to right. -/
def comparisons : Condition → List Comparison
  | comparison field operator operand => [⟨field, operator, operand⟩]
  | conj parts => comparisonsAll parts
  | disj parts => comparisonsAll parts
  | neg inner => comparisons inner

def comparisonsAll : List Condition → List Comparison
  | [] => []
  | c :: cs => comparisons c ++ comparisonsAll cs

end

mutual

/-- No junction, at any depth, is without parts. -/
def WellFormed : Condition → Prop
  | comparison _ _ _ => True
  | conj parts => parts ≠ [] ∧ AllWellFormed parts
  | disj parts => parts ≠ [] ∧ AllWellFormed parts
  | neg inner => WellFormed inner

def AllWellFormed : List Condition → Prop
  | [] => True
  | c :: cs => WellFormed c ∧ AllWellFormed cs

end

mutual

theorem fields_eq : ∀ c : Condition, c.fields = c.comparisons.map (·.field)
  | comparison _ _ _ => rfl
  | conj parts => fieldsAll_eq parts
  | disj parts => fieldsAll_eq parts
  | neg inner => fields_eq inner

theorem fieldsAll_eq : ∀ cs : List Condition, fieldsAll cs = (comparisonsAll cs).map (·.field)
  | [] => rfl
  | c :: cs => by rw [fieldsAll, comparisonsAll, List.map_append, fields_eq c, fieldsAll_eq cs]

end

mutual

theorem length_parameters : ∀ c : Condition,
    (Comparison.parameters c.comparisons).length = c.parameterCount
  | comparison field operator operand => by
    rw [comparisons, Comparison.length_parameters_cons]
    rfl
  | conj parts => length_parametersAll parts
  | disj parts => length_parametersAll parts
  | neg inner => length_parameters inner

theorem length_parametersAll : ∀ cs : List Condition,
    (Comparison.parameters (comparisonsAll cs)).length = parameterCounts cs
  | [] => rfl
  | c :: cs => by
    rw [comparisonsAll, Comparison.parameters, List.filter_append, List.length_append,
      parameterCounts, ← length_parameters c, ← length_parametersAll cs]
    rfl

end

/-! ### Combining -/

theorem comparisonsAll_append (cs ds : List Condition) :
    comparisonsAll (cs ++ ds) = comparisonsAll cs ++ comparisonsAll ds := by
  induction cs with
  | nil => rfl
  | cons c cs ih => rw [List.cons_append, comparisonsAll, comparisonsAll, ih, List.append_assoc]

theorem comparisons_combine (c : Condition) (k : Conjunction) (next : Condition) :
    (c.combine k next).comparisons = c.comparisons ++ next.comparisons := by
  cases c <;> cases k <;> simp [combine, comparisons, comparisonsAll, comparisonsAll_append]

theorem comparisons_combineAll (c : Condition) (rest : List (Conjunction × Condition)) :
    (c.combineAll rest).comparisons = c.comparisons ++ rest.flatMap (·.2.comparisons) := by
  induction rest generalizing c with
  | nil => exact (List.append_nil _).symm
  | cons next rest ih =>
    rw [combineAll, List.foldl_cons, ← combineAll, ih, comparisons_combine, List.flatMap_cons,
      List.append_assoc]

theorem fields_combineAll (c : Condition) (rest : List (Conjunction × Condition)) :
    (c.combineAll rest).fields = c.fields ++ rest.flatMap (·.2.fields) := by
  simp only [fields_eq, comparisons_combineAll, List.map_append, List.map_flatMap]

theorem allWellFormed_append {cs ds : List Condition} :
    AllWellFormed (cs ++ ds) ↔ AllWellFormed cs ∧ AllWellFormed ds := by
  induction cs with
  | nil => simp [AllWellFormed]
  | cons c cs ih => simp [AllWellFormed, ih, and_assoc]

theorem WellFormed.combine {c next : Condition} (hc : c.WellFormed) (hnext : next.WellFormed)
    (k : Conjunction) : (c.combine k next).WellFormed := by
  cases c <;> cases k <;>
    simp_all [Condition.combine, WellFormed, AllWellFormed, allWellFormed_append]

theorem WellFormed.combineAll {c : Condition} {rest : List (Conjunction × Condition)}
    (hc : c.WellFormed) (hrest : ∀ next ∈ rest, next.2.WellFormed) :
    (c.combineAll rest).WellFormed := by
  induction rest generalizing c with
  | nil => exact hc
  | cons next rest ih =>
    rw [List.forall_mem_cons] at hrest
    exact ih (hc.combine hrest.1 next.1) hrest.2

/-! ### Binding -/

/-- What binding a condition gives, next to what binding a row of comparisons gives. -/
inductive Agrees : Except Failure (Filter × List Value) →
    Except Failure (List Filter × List Value) → Prop
  | ok {f : Filter} {fs : List Filter} (h : f.FailsAs fs) (rest : List Value) :
    Agrees (.ok (f, rest)) (.ok (fs, rest))
  | error (failure : Failure) : Agrees (.error failure) (.error failure)

theorem Agrees.bind {x : Except Failure (Filter × List Value)}
    {y : Except Failure (List Filter × List Value)}
    {next : Filter × List Value → Except Failure (Filter × List Value)}
    {next' : List Filter × List Value → Except Failure (List Filter × List Value)}
    (h : Agrees x y)
    (hnext : ∀ f fs rest, f.FailsAs fs → Agrees (next (f, rest)) (next' (fs, rest))) :
    Agrees (x >>= next) (y >>= next') := by
  cases h with
  | ok h rest => exact hnext _ _ rest h
  | error failure => exact .error failure

theorem Agrees.exists_of_ok {x : Except Failure (Filter × List Value)} {fs : List Filter}
    {rest : List Value} (h : Agrees x (.ok (fs, rest))) :
    ∃ f, x = .ok (f, rest) ∧ f.FailsAs fs := by
  cases h with
  | ok h rest => exact ⟨_, rfl, h⟩

section
variable {schema : Schema}

mutual

theorem agrees_bind : ∀ {c : Condition}, c.WellFormed → ∀ args : List Value,
    Agrees (c.bind schema args) (Comparison.bindAll schema c.comparisons args)
  | comparison field operator operand, _, args => by
    rw [comparisons, Comparison.bindAll]
    show Agrees (Comparison.bind schema ⟨field, operator, operand⟩ args) _
    cases Comparison.bind schema ⟨field, operator, operand⟩ args with
    | error failure => exact .error failure
    | ok bound => exact .ok (Filter.failsAs_self bound.1) bound.2
  | conj parts, h, args => by
    rw [Condition.bind, comparisons]
    exact agrees_bindParts .and h.1 h.2 args
  | disj parts, h, args => by
    rw [Condition.bind, comparisons]
    exact agrees_bindParts .or h.1 h.2 args
  | neg inner, h, args => by
    have hinner := agrees_bind (c := inner) h args
    rw [Condition.bind, comparisons, ← bind_pure (Comparison.bindAll schema inner.comparisons args)]
    exact hinner.bind fun f fs rest hf => .ok hf.not rest

theorem agrees_bindParts (k : Conjunction) : ∀ {cs : List Condition}, cs ≠ [] → AllWellFormed cs →
    ∀ args : List Value,
      Agrees (bindParts schema k cs args) (Comparison.bindAll schema (comparisonsAll cs) args)
  | [], hne, _, _ => absurd rfl hne
  | c :: cs, _, h, args => by
    rw [bindParts, comparisonsAll, Comparison.bindAll_append]
    exact (agrees_bind h.1 args).bind fun f fs rest hf => agrees_bindRest k h.2 hf rest

theorem agrees_bindRest (k : Conjunction) : ∀ {cs : List Condition}, AllWellFormed cs →
    ∀ {f : Filter} {fs : List Filter}, f.FailsAs fs → ∀ args : List Value,
      Agrees (bindRest schema k f cs args) (do
        let others ← Comparison.bindAll schema (comparisonsAll cs) args
        pure (fs ++ others.1, others.2))
  | [], _, f, fs, hf, args => by
    show Agrees (.ok (f, args)) (.ok (fs ++ [], args))
    rw [List.append_nil]
    exact .ok hf args
  | c :: cs, h, f, fs, hf, args => by
    rw [bindRest, comparisonsAll, Comparison.bindAll_append]
    simp only [bind_assoc, pure_bind]
    refine (agrees_bind h.1 args).bind fun g gs rest hg => ?_
    simp only [← List.append_assoc]
    exact agrees_bindRest k h.2 (hf.join hg k) rest

end

end

end Condition

end EntityStore
