import EntityStore.Proofs.MethodName.Criteria
import EntityStore.Proofs.Query.Twins
import EntityStore.Proofs.Sorting.Comparable
import EntityStore.Proofs.Storage.Removal

/-!
# What a compiled query fails on

Compiling checks all that the name and the schema decide.  A call that brings what the query asks
for can then only fail where the values that instances hold have no order: at a range operator or
at a sort key.  Both are matters of types, and where each attribute holds values of one scalar kind
neither comes up.  But a failure at a sort key can be lost in a panic of the sort
(`fails_on_types_or_panics`).

    compile method shape schema = .ok q → q.Checked                         (checked_of_compile)
    (q.execute args s).1 = .error failure → ∃ fault, q.Fault args s fault ∧
      (failure = fault ∨ failure = .inconsistentOrder ∧ q.Panics args s)  (failsWith_of_execute)
    q.Fault args s failure → failure.category = .typeMismatch                (Fault.category_eq)
-/

namespace EntityStore

/-- The operator asks for the order of two values. -/
def Operator.isRange : Operator → Bool
  | eq | isIn => false
  | gt | gte | lt | lte => true

/-! ## Filters -/

namespace Filter

variable {operator : Operator} {v : Value} {accessor : Accessor} {r : Record} {failure : Failure}

/-- Equality and membership are always decided. -/
theorem error_of_compare {f : Filter} (hf : compare operator v accessor = .ok f)
    (h : f r = .error failure) :
    operator.isRange = true ∧ inRange operator v accessor r = .error failure := by
  unfold compare at hf
  split at hf
  · cases hf
  · cases operator with
    | eq =>
      cases hf
      cases h
    | isIn =>
      cases v with
      | list members =>
        cases hf
        cases h
      | _ => cases hf
    | _ =>
      cases hf
      exact ⟨rfl, h⟩

theorem category_of_inRange (h : inRange operator v accessor r = .error failure) :
    failure.category = .typeMismatch := by
  unfold inRange at h
  dsimp only at h
  split at h
  · cases h
  · split at h
    · cases h
      rfl
    · exact Value.category_of_compare (map_eq_error.1 h)

theorem exists_inRange (hkind : v.kind.isScalar = true)
    (hheld : (accessor.read r).IsNullOr v.kind) :
    ∃ b, inRange operator v accessor r = .ok b := by
  obtain ⟨o, ho⟩ := Value.exists_compare hkind hheld (.inr rfl)
  unfold inRange
  dsimp only
  split
  · exact ⟨false, rfl⟩
  · next hnull =>
    have hsame : (accessor.read r).kind = v.kind :=
      hheld.resolve_left fun h => hnull (Value.isNull_iff.2 h)
    rw [if_neg (not_not_intro hsame)]
    exact ⟨operator.admits o, map_eq_ok.2 ⟨o, ho, rfl⟩⟩

theorem error_of_onInstances {schema : Schema} {f : Filter}
    (h : f.onInstances schema r = .error failure) :
    schema.isInstance r = true ∧ f r = .error failure := by
  unfold onInstances at h
  split at h
  · next hr => exact ⟨hr, h⟩
  · cases h

theorem mem_instances_of_select {schema : Schema} {f : Filter} {rs found : List Record}
    (h : (f.onInstances schema).select rs = .ok found) (hr : r ∈ found) :
    r ∈ schema.instances rs := by
  obtain ⟨-, rfl⟩ := select_eq_ok_iff.1 h
  obtain ⟨hmem, haccepts⟩ := List.mem_filter.1 hr
  rw [accepts_onInstances, Bool.and_eq_true] at haccepts
  exact List.mem_filter.2 ⟨hmem, haccepts.1⟩

end Filter

namespace DerivedQuery

/-! ## Compiled queries -/

def comparisons (q : DerivedQuery) : List Comparison := q.condition.elim [] Condition.comparisons

/-- The comparisons that a call brings the values for, in order. -/
def parameters (q : DerivedQuery) : List Comparison := Comparison.parameters q.comparisons

/-- What compiling a query checks. -/
structure Checked (q : DerivedQuery) : Prop where
  wellFormed : ∀ c ∈ q.condition, c.WellFormed
  fields : ∀ l ∈ q.comparisons, ∃ accessor, q.schema.resolve l.field = .ok accessor
  literals : ∀ l ∈ q.comparisons, ∀ v, l.operand = .literal v → l.operator = .eq ∧ v ≠ .null
  sorts : ∀ key ∈ q.sorts, ∃ accessor, q.schema.resolve key.property = .ok accessor

theorem length_parameters (q : DerivedQuery) : q.parameters.length = q.parameterCount := by
  obtain ⟨method, kind, shape, condition, sorts, schema⟩ := q
  cases condition with
  | none => rfl
  | some c => exact c.length_parameters

theorem checked_of_compile {method : String} {shape : ResultShape} {schema : Schema}
    {q : DerivedQuery} (h : compile method shape schema = .ok q) : q.Checked := by
  by_cases hall : MethodKind.classify method false = .findAll
  · rw [compile, if_pos hall] at h
    cases h
    refine ⟨?_, List.forall_mem_nil _, List.forall_mem_nil _, List.forall_mem_nil _⟩
    intro c hc
    cases hc
  · cases hparse : MethodQuery.parse method with
    | error failure =>
      rw [compile, if_neg hall, hparse] at h
      cases h
    | ok parsed =>
      obtain ⟨hfields, hsorts, rfl⟩ := (compile_eq_ok_iff hparse).1 h
      obtain ⟨_, _, _, _, -, -, -, -, -, hcriteria, -⟩ := MethodQuery.parse_eq_ok_iff.1 hparse
      obtain ⟨hwellFormed, clauses, hclauses⟩ := MethodName.wellFormed_criteria hcriteria
      refine ⟨?_, ?_, ?_, SortKey.exists_comparators_iff.1 hsorts⟩
      · rintro c hc
        cases hc
        exact hwellFormed
      · intro l hl
        apply Condition.checkFields_eq_ok_iff.1 hfields
        rw [Condition.fields_eq]
        exact List.mem_map_of_mem hl
      · intro l hl v hv
        replace hl : l ∈ parsed.condition.comparisons := hl
        rw [hclauses] at hl
        obtain ⟨clause, -, rfl⟩ := List.mem_map.1 hl
        obtain ⟨heq, b, rfl⟩ := clause.literal_of_comparison hv
        exact ⟨heq, Value.noConfusion⟩

/-! ## Faults -/

/-- What a call must bring: a value for each parameter, none of them `null` and lists where
membership is asked for, and keys that name attributes. -/
structure Admits (q : DerivedQuery) (args : List Argument) : Prop where
  count : q.parameterCount ≤ (Argument.values args).length
  values : ∀ p ∈ q.parameters.zip (Argument.values args), p.1.operator.Allows p.2
  keys : ∀ key ∈ Argument.allSortKeys args,
    ∃ accessor, q.schema.resolve key.property = .ok accessor

/-- A failure at the values that instances in the store hold. -/
inductive Fault (q : DerivedQuery) (args : List Argument) (s : Store) (failure : Failure) : Prop
  | range {l : Comparison} {v : Value} {accessor : Accessor} {r : Record}
    (taken : Comparison.Takes q.comparisons (Argument.values args) l v)
    (isRange : l.operator.isRange = true) (field : q.schema.resolve l.field = .ok accessor)
    (held : r ∈ q.schema.instances s.records)
    (fails : Filter.inRange l.operator v accessor r = .error failure)
  | order {key : SortKey} {accessor : Accessor} {a b : Record}
    (asked : key ∈ q.sorts ++ Argument.allSortKeys args)
    (field : q.schema.resolve key.property = .ok accessor)
    (left : a ∈ q.schema.instances s.records) (right : b ∈ q.schema.instances s.records)
    (fails : (accessor.read a).compare (accessor.read b) = .error failure)

theorem exists_requestedPage (q : DerivedQuery) (args : List Argument) {size : UInt64}
    (h : size ≠ 0) : ∃ request, q.requestedPage args size = .ok request := by
  unfold requestedPage
  split
  · next r _ => exact ⟨some r, rfl⟩
  · split
    · obtain ⟨r, hr⟩ := PageRequest.exists_ofSize h
      exact ⟨some r, map_eq_ok.2 ⟨r, hr, rfl⟩⟩
    · exact ⟨none, rfl⟩

section
variable {q : DerivedQuery} {args : List Argument} {s : Store} {f : Filter} {failure : Failure}

theorem Fault.category_eq (h : q.Fault args s failure) : failure.category = .typeMismatch := by
  cases h with
  | range taken isRange field held fails => exact Filter.category_of_inRange fails
  | order asked field left right fails => exact Value.category_of_compare fails

/-- The filter of a call, with all that it fails on. -/
theorem exists_filter (hq : q.Checked) (hargs : q.Admits args) :
    ∃ f : Filter, q.filter args = .ok (f.onInstances q.schema) ∧
      ∀ r ∈ q.schema.instances s.records, ∀ failure, f r = .error failure →
        q.Fault args s failure := by
  obtain ⟨method, kind, shape, condition, sorts, schema⟩ := q
  cases condition with
  | none => exact ⟨Filter.always, rfl, nofun⟩
  | some c =>
    have hallows : ∀ l v, Comparison.Takes c.comparisons (Argument.values args) l v →
        l.operator.Allows v := by
      rintro l v (⟨hl, hv⟩ | hzip)
      · obtain ⟨heq, hnull⟩ := hq.literals l hl v hv
        rw [heq]
        exact ⟨hnull, nofun⟩
      · exact hargs.values (l, v) hzip
    have hcount : (Comparison.parameters c.comparisons).length ≤ (Argument.values args).length :=
      (length_parameters _).trans_le hargs.count
    obtain ⟨⟨fs, rest⟩, hfs⟩ := Comparison.exists_bindAll hq.fields hcount hallows
    have hagrees : Condition.Agrees (c.bind schema (Argument.values args)) (.ok (fs, rest)) := by
      rw [← hfs]
      exact Condition.agrees_bind (hq.wellFormed c rfl) (Argument.values args)
    obtain ⟨f, hf, hfails⟩ := hagrees.exists_of_ok
    refine ⟨f, map_eq_ok.2 ⟨_, hf, rfl⟩, ?_⟩
    intro r hr failure hfailure
    obtain ⟨g, hg, hgr⟩ := hfails r failure hfailure
    obtain ⟨l, v, accessor, htaken, hfield, hcompare⟩ := Comparison.exists_of_mem_bindAll hfs hg
    obtain ⟨hrange, hinRange⟩ := Filter.error_of_compare hcompare hgr
    exact .range htaken hrange hfield hr hinRange

/-- What the filter finds makes the sort panic. -/
def FindPanics (q : DerivedQuery) (f : Filter) (args : List Argument) (s : Store) : Prop :=
  ∃ cs found, SortKey.recordComparators q.schema (q.sorts ++ Argument.allSortKeys args) = .ok cs ∧
    f.select s.records = .ok found ∧ SortPanics (Comparator.chain cs) found

/-- A call that finds records makes the sort panic. -/
def Panics (q : DerivedQuery) (args : List Argument) (s : Store) : Prop :=
  q.kind ≠ .derivedDelete ∧ ∃ f, q.filter args = .ok f ∧ q.FindPanics f args s

/-- The failure is a fault, or the panic of the sort after one. -/
def FailsWith (q : DerivedQuery) (f : Filter) (args : List Argument) (s : Store)
    (failure : Failure) : Prop :=
  ∃ fault, q.Fault args s fault ∧
    (failure = fault ∨ failure = .inconsistentOrder ∧ q.FindPanics f args s)

theorem Fault.failsWith (h : q.Fault args s failure) : q.FailsWith f args s failure :=
  ⟨failure, h, .inl rfl⟩

/-- Two instances that cannot be sorted fail in the attribute of a sort key. -/
theorem fault_of_failsOn {cs : List Comparator} {found : List Record}
    (hcs : SortKey.recordComparators q.schema (q.sorts ++ Argument.allSortKeys args) = .ok cs)
    (hfound : ∀ r ∈ found, r ∈ q.schema.instances s.records)
    (h : (Comparator.chain cs).FailsOn found failure) : q.Fault args s failure := by
  obtain ⟨a, ha, b, hb, hab⟩ := h.exists_mem
  replace ha := hfound a ha
  replace hb := hfound b hb
  obtain ⟨key, hkey, accessor, hfield, hfails⟩ := SortKey.error_of_recordComparators hcs
    (List.mem_filter.1 ha).2 (List.mem_filter.1 hb).2 hab
  exact .order hkey hfield ha hb hfails

section
variable (hf : ∀ r ∈ q.schema.instances s.records, ∀ failure, f r = .error failure →
  q.Fault args s failure)
include hf

/-- A search that fails does so on an instance. -/
theorem fault_of_select (h : (f.onInstances q.schema).select s.records = .error failure) :
    q.Fault args s failure := by
  obtain ⟨r, hr, hfailure⟩ := Filter.error_of_select h
  obtain ⟨hinstance, hfr⟩ := Filter.error_of_onInstances hfailure
  exact hf r (List.mem_filter.2 ⟨hr, hinstance⟩) failure hfr

/-- Either the search fails, or the sort of what it finds. -/
theorem failsWith_of_select {cs : List Comparator} {skip limit : Nat}
    (hcs : SortKey.recordComparators q.schema (q.sorts ++ Argument.allSortKeys args) = .ok cs)
    (h : s.select (f.onInstances q.schema) cs skip limit = .error failure) :
    q.FailsWith (f.onInstances q.schema) args s failure := by
  rw [Store.select] at h
  rcases bind_eq_error.1 h with h | ⟨found, hfound, h⟩
  · exact (fault_of_select hf h).failsWith
  · have hinstances : ∀ r ∈ found, r ∈ q.schema.instances s.records := fun r hr =>
      Filter.mem_instances_of_select hfound hr
    rcases bind_eq_error.1 h with h | ⟨sorted, -, h⟩
    · rcases failsOn_or_panics (SortKey.lawful_recordComparators hcs) h with
        hfails | ⟨rfl, hpanics, fault, hfails⟩
      · exact (fault_of_failsOn hcs hinstances hfails).failsWith
      · exact ⟨fault, fault_of_failsOn hcs hinstances hfails,
          .inr ⟨rfl, cs, found, hcs, hfound, hpanics⟩⟩
    · cases h

theorem failsWith_of_find (hq : q.Checked) (hargs : q.Admits args)
    (hsize : s.settings.defaultPageSize ≠ 0)
    (h : q.find (f.onInstances q.schema) args s = .error failure) :
    q.FailsWith (f.onInstances q.schema) args s failure := by
  have hkeys : ∀ key ∈ q.sorts ++ Argument.allSortKeys args,
      ∃ accessor, q.schema.resolve key.property = .ok accessor :=
    List.forall_mem_append.2 ⟨hq.sorts, hargs.keys⟩
  obtain ⟨cs, hcs⟩ := SortKey.exists_recordComparators hkeys
  obtain ⟨request, hrequest⟩ := q.exists_requestedPage args hsize
  rw [find_eq, hcs, hrequest] at h
  replace h : (s.select (f.onInstances q.schema) cs (request.elim 0 PageRequest.skip)
    (request.elim 0 (·.size.toNat)) >>= fun records => pure (records, request)) =
      .error failure := h
  rcases bind_eq_error.1 h with h | ⟨records, -, h⟩
  · exact failsWith_of_select hf hcs h
  · cases h

theorem failsWith_of_answer (hq : q.Checked) (hargs : q.Admits args)
    (hsize : s.settings.defaultPageSize ≠ 0)
    (h : q.answer args (f.onInstances q.schema) s = .error failure) :
    q.FailsWith (f.onInstances q.schema) args s failure := by
  rw [answer] at h
  rcases bind_eq_error.1 h with h | ⟨⟨records, request⟩, -, h⟩
  · exact failsWith_of_find hf hq hargs hsize h
  · -- What was found is only handed over, on a page that there is.
    dsimp only at h
    split at h
    · cases h
    · cases h
    · cases request with
      | some r => cases h
      | none =>
        obtain ⟨page, hpage⟩ := PageRequest.exists_ofSize hsize
        rw [hpage] at h
        cases h

end

theorem answer_of_findPanics (hsize : s.settings.defaultPageSize ≠ 0)
    (h : q.FindPanics f args s) : q.answer args f s = .error .inconsistentOrder := by
  obtain ⟨cs, found, hcs, hfound, hpanics⟩ := h
  obtain ⟨request, hrequest⟩ := q.exists_requestedPage args hsize
  have hsort := sortRecords_of_panics (SortKey.lawful_recordComparators hcs) hpanics
  refine bind_eq_error.2 (.inl ?_)
  rw [find_eq, hcs, hrequest]
  show (s.select f cs (request.elim 0 PageRequest.skip) (request.elim 0 (·.size.toNat)) >>=
    fun records => pure (records, request)) = .error .inconsistentOrder
  refine bind_eq_error.2 (.inl ?_)
  exact bind_eq_error.2 (.inr ⟨found, hfound, bind_eq_error.2 (.inl hsort)⟩)

end

section
variable {q : DerivedQuery} {args : List Argument} {s : Store} {failure : Failure}

/-- A call that brings what is asked for fails on what the store holds, or not at all. -/
theorem failsWith_of_execute (hq : q.Checked) (hargs : q.Admits args)
    (hsize : s.settings.defaultPageSize ≠ 0) (h : (q.execute args s).1 = .error failure) :
    ∃ fault, q.Fault args s fault ∧
      (failure = fault ∨ failure = .inconsistentOrder ∧ q.Panics args s) := by
  obtain ⟨f, hfilter, hf⟩ := exists_filter (s := s) hq hargs
  by_cases hkind : q.kind = .derivedDelete
  · rw [execute_removal hkind hfilter] at h
    have hremove := map_eq_error.1 h
    have hselect := (Store.removeWhere_eq_error_iff.1 (Prod.ext hremove rfl)).1
    exact ⟨failure, fault_of_select hf hselect, .inl rfl⟩
  · rw [execute_eq hkind, hfilter] at h
    obtain ⟨fault, hfault, hfails⟩ := failsWith_of_answer hf hq hargs hsize h
    exact ⟨fault, hfault, hfails.imp_right fun hpanics => ⟨hpanics.1, hkind, _, hfilter, hpanics.2⟩⟩

theorem execute_of_panics (hsize : s.settings.defaultPageSize ≠ 0) (h : q.Panics args s) :
    (q.execute args s).1 = .error .inconsistentOrder := by
  obtain ⟨hkind, f, hfilter, hpanics⟩ := h
  rw [execute_eq hkind, hfilter]
  exact answer_of_findPanics hsize hpanics

/-- What is sorted are instances. -/
theorem Panics.lt_length (hq : q.Checked) (hargs : q.Admits args) (h : q.Panics args s) :
    20 < (q.schema.instances s.records).length := by
  obtain ⟨-, f, hfilter, cs, found, -, hfound, hpanics⟩ := h
  obtain ⟨f', hfilter', -⟩ := exists_filter (s := s) hq hargs
  rw [hfilter] at hfilter'
  cases hfilter'
  obtain ⟨-, rfl⟩ := Filter.select_eq_ok_iff.1 hfound
  refine hpanics.lt_length.trans_le (List.Sublist.length_le ?_)
  refine List.monotone_filter_right _ fun r hr => ?_
  rw [Filter.accepts_onInstances, Bool.and_eq_true] at hr
  exact hr.1

/-! ## Values of one kind -/

/-- The fields and properties that a call names. -/
def names (q : DerivedQuery) (args : List Argument) : List String :=
  q.comparisons.map (·.field) ++ (q.sorts ++ Argument.allSortKeys args).map (·.property)

/-- In the attribute that is named, all instances hold `null` or values of one scalar kind, of which
the operands of its range operators are as well. -/
structure Uniform (q : DerivedQuery) (args : List Argument) (s : Store) (name : String)
    (kind : ValueKind) : Prop where
  scalar : kind.isScalar = true
  held : ∀ accessor, q.schema.resolve name = .ok accessor →
    ∀ r ∈ q.schema.instances s.records, (accessor.read r).IsNullOr kind
  operands : ∀ p ∈ q.parameters.zip (Argument.values args),
    p.1.field = name → p.1.operator.isRange = true → p.2.kind = kind

theorem not_fault_of_uniform (hq : q.Checked)
    (huniform : ∀ name ∈ q.names args, ∃ kind, q.Uniform args s name kind) :
    ¬ q.Fault args s failure := by
  rintro (⟨htaken, hrange, hfield, hr, hfails⟩ | ⟨hkey, hfield, ha, hb, hfails⟩)
  · next l v accessor r =>
    have hmem : l ∈ q.comparisons ∧ (l, v) ∈ q.parameters.zip (Argument.values args) := by
      rcases htaken with ⟨hl, hv⟩ | hzip
      · -- No operand that a name brings itself is of a range operator.
        obtain ⟨heq, -⟩ := hq.literals l hl v hv
        rw [heq] at hrange
        cases hrange
      · exact ⟨List.mem_of_mem_filter (List.of_mem_zip hzip).1, hzip⟩
    obtain ⟨kind, hkind⟩ :=
      huniform l.field (List.mem_append_left _ (List.mem_map_of_mem hmem.1))
    obtain rfl : v.kind = kind := hkind.operands (l, v) hmem.2 rfl hrange
    obtain ⟨b, hb⟩ := Filter.exists_inRange hkind.scalar (hkind.held accessor hfield r hr)
    rw [hb] at hfails
    cases hfails
  · next key accessor a b =>
    obtain ⟨kind, hkind⟩ :=
      huniform key.property (List.mem_append_right _ (List.mem_map_of_mem hkey))
    obtain ⟨o, ho⟩ := Value.exists_compare hkind.scalar (hkind.held accessor hfield a ha)
      (hkind.held accessor hfield b hb)
    rw [ho] at hfails
    cases hfails

end

/-! ## Top theorem -/

/-- **A query that compiles fails on types only, or panics.**  A call that brings what the query
asks for answers, or fails on the types of the values that the instances in the store hold, whatever
else is in the store, unless the sort of what it finds panics, which takes more than twenty
instances.  Where each attribute that it names holds values of one scalar kind, which its range
operands are of as well, it answers. -/
theorem fails_on_types_or_panics {method : String} {shape : ResultShape} {schema : Schema}
    {q : DerivedQuery} {args : List Argument} {s : Store}
    (hcompile : compile method shape schema = .ok q) (hargs : q.Admits args)
    (hsize : s.settings.defaultPageSize ≠ 0) :
    ((∃ result, (q.execute args s).1 = .ok result) ∨
      (∃ failure, (q.execute args s).1 = .error failure ∧ failure.category = .typeMismatch) ∨
      (q.execute args s).1 = .error .inconsistentOrder) ∧
    ((q.execute args s).1 = .error .inconsistentOrder ↔ q.Panics args s) ∧
    (q.Panics args s → 20 < (q.schema.instances s.records).length) ∧
    ((∀ name ∈ q.names args, ∃ kind, q.Uniform args s name kind) →
      ∃ result, (q.execute args s).1 = .ok result) := by
  have hq := checked_of_compile hcompile
  refine ⟨?_, ⟨fun h => ?_, execute_of_panics hsize⟩, Panics.lt_length hq hargs, fun huniform => ?_⟩
  · cases houtcome : (q.execute args s).1 with
    | ok result => exact .inl ⟨result, rfl⟩
    | error failure =>
      obtain ⟨fault, hfault, rfl | ⟨rfl, -⟩⟩ := failsWith_of_execute hq hargs hsize houtcome
      · exact .inr (.inl ⟨_, rfl, hfault.category_eq⟩)
      · exact .inr (.inr rfl)
  · obtain ⟨fault, hfault, rfl | ⟨-, hpanics⟩⟩ := failsWith_of_execute hq hargs hsize h
    · cases hfault.category_eq
    · exact hpanics
  · cases houtcome : (q.execute args s).1 with
    | ok result => exact ⟨result, rfl⟩
    | error failure =>
      obtain ⟨fault, hfault, -⟩ := failsWith_of_execute hq hargs hsize houtcome
      exact absurd hfault (not_fault_of_uniform hq huniform)

/-- A book without an edition and a note whose edition is text, next to books that can be compared
with the fifth edition, and a call with an operand that they cannot be compared with. -/
theorem fails_on_types_or_panics_missing_edition :
    let isbn : Accessor := ⟨"isbn", "Book", "Book", fun r => .integer (.ofNat r.id)⟩
    let edition : Accessor := ⟨"edition", "Book", "Book", fun r =>
      if r.typeName = "Note" then .text "draft" else if r.id = 4 then .null
        else .integer (.ofNat r.id)⟩
    let schema : Schema := ⟨"Book", "Book", isbn, [edition]⟩
    let store := Store.hydrate (.ofEntries [(.integer 4, ⟨4, "Book"⟩), (.integer 1, ⟨1, "Book"⟩),
      (.text "draft", ⟨3, "Note"⟩), (.integer 5, ⟨5, "Book"⟩)]) {}
    ∃ q, compile "findByEditionLessThan" .list schema = .ok q ∧
      (∃ result, (q.execute [.value (.integer 5), .sort ⟨"isbn", .desc⟩] store).1 = .ok result) ∧
      ∃ failure, (q.execute [.value (.text "5")] store).1 = .error failure ∧
        failure.category = .typeMismatch := by
  intro isbn edition schema store
  let q : DerivedQuery := ⟨"findByEditionLessThan", .derivedFind, .list,
    some (.comparison "edition" .lt .parameter), [], schema⟩
  have hcompile : compile "findByEditionLessThan" .list schema = .ok q := by
    have hparse : MethodQuery.parse "findByEditionLessThan" =
        .ok ⟨.derivedFind, .comparison "edition" .lt .parameter, []⟩ := rfl
    exact (compile_eq_ok_iff hparse).2 ⟨rfl, ⟨[], rfl⟩, rfl⟩
  have hinteger : q.Admits [.value (.integer 5), .sort ⟨"isbn", .desc⟩] :=
    ⟨Nat.le_refl 1, by decide, List.forall_mem_singleton.2 ⟨isbn, rfl⟩⟩
  have htext : q.Admits [.value (.text "5")] := ⟨Nat.le_refl 1, by decide, nofun⟩
  have huniform : ∀ name ∈ q.names [.value (.integer 5), .sort ⟨"isbn", .desc⟩], ∃ kind,
      q.Uniform [.value (.integer 5), .sort ⟨"isbn", .desc⟩] store name kind := by
    refine List.forall_mem_cons.2 ⟨⟨.integer, rfl, ?_, by decide⟩,
      List.forall_mem_singleton.2 ⟨.integer, rfl, ?_, by decide⟩⟩
    · intro accessor h
      obtain rfl : edition = accessor := Except.ok.inj h
      decide
    · intro accessor h
      obtain rfl : isbn = accessor := Except.ok.inj h
      decide
  refine ⟨q, hcompile, (fails_on_types_or_panics hcompile hinteger (by decide)).2.2.2 huniform, ?_⟩
  rcases (fails_on_types_or_panics hcompile htext (s := store) (by decide)).1 with
    ⟨result, h⟩ | h | h
  · cases h
  · exact h
  · cases h

/-- All books by edition, which are eleven numbers and ten texts, and one has none: the failure at
the first text is lost in a panic. -/
theorem mixed_editions_break_find :
    let isbn : Accessor := ⟨"isbn", "Book", "Book", fun r => .integer (.ofNat r.id)⟩
    let edition : Accessor := ⟨"edition", "Book", "Book", fun r =>
      if r.id = 0 then .integer 20 else if r.id = 1 then .integer 10
      else if r.id < 11 then .integer (.ofNat (10 * r.id + 10))
      else if r.id < 21 then .text "draft" else .null⟩
    let schema : Schema := ⟨"Book", "Book", isbn, [edition]⟩
    let store := Store.hydrate
      (.ofEntries ((List.range 22).map fun id => (.integer (.ofNat id), ⟨id, "Book"⟩))) {}
    ∃ q, compile "findAll" .list schema = .ok q ∧ q.Admits [.sort ⟨"edition", .desc⟩] ∧
      store.settings.defaultPageSize ≠ 0 ∧
      (q.execute [.sort ⟨"edition", .desc⟩] store).1 = .error .inconsistentOrder :=
  ⟨_, rfl, ⟨Nat.le_refl 0, nofun, List.forall_mem_singleton.2 ⟨_, rfl⟩⟩, by decide, rfl⟩

end DerivedQuery

end EntityStore
