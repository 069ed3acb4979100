import EntityStore.Proofs.Query.StandardSize
import EntityStore.Proofs.Storage.Filing

/-!
# Sets of what is found

A query finds no entry twice, however it filters, sorts and cuts out a page.  So where the instances
of a type in a store have different identifiers, those that are found have different identifiers as
well, and a set of them has each of them.

    schema.Distinct s.records → q.execute args s = (.ok result, s') → result.toList = .ok records →
      ∃ members, Answers method schema args s .set (.set members) ∧
        members.entries = schema.entriesOf records                                  (answers_set)
-/

namespace EntityStore

/-- Records with their identifiers, which a set of them has for keys. -/
def Schema.entriesOf (schema : Schema) (records : List Record) : List (Value × Record) :=
  records.map fun r => (schema.identifier.read r, r)

theorem Schema.keysOf_entriesOf (schema : Schema) (records : List Record) :
    keysOf (schema.entriesOf records) = records.map schema.identifier.read := by
  rw [keysOf, entriesOf, List.map_map]
  rfl

theorem Container.size_of_entriesOf {schema : Schema} {records : List Record} {c : Container}
    (h : c.entries = schema.entriesOf records) : c.size = records.length := by
  rw [size, h]
  exact List.length_map _

theorem Container.get?_of_entriesOf {schema : Schema} {records : List Record} {c : Container}
    (h : c.entries = schema.entriesOf records) {r : Record} (hr : r ∈ records) :
    c.get? (schema.identifier.read r) = some r := by
  rw [get?_eq_some_iff, h]
  exact List.mem_map_of_mem hr

namespace QueryResult

variable {schema : Schema} {records : List Record}

/-- Of records with different identifiers a set has each. -/
theorem adapt_set (h : (records.map schema.identifier.read).Nodup) (request : PageRequest) :
    ∃ members, adapt schema .set records request = .set members ∧
      members.entries = schema.entriesOf records := by
  refine ⟨.ofEntries (schema.entriesOf records), rfl, Container.entries_ofEntries ?_⟩
  rwa [schema.keysOf_entriesOf]

theorem eq_of_toList_adapt (h : (records.map schema.identifier.read).Nodup) {shape : ResultShape}
    {request : PageRequest} {listed : List Record}
    (hlist : (adapt schema shape records request).toList = .ok listed) : listed = records := by
  cases shape with
  | stream | list | deque | page =>
    cases hlist
    rfl
  | set =>
    obtain ⟨members, hset, hmembers⟩ := adapt_set h request
    rw [hset] at hlist
    cases hlist
    rw [Container.records, hmembers, Schema.entriesOf, List.map_map]
    exact List.map_id records
  | optional | boolean | count | single => cases hlist

end QueryResult

namespace DerivedQuery

variable {method : String} {shape : ResultShape} {schema : Schema} {q : DerivedQuery}
  {args : List Argument} {f : Filter} {s s' : Store}

/-- The shape of a method has no part in what it compiles to otherwise. -/
theorem compile_shape (h : compile method shape schema = .ok q) :
    q.schema = schema ∧ q.shape = shape ∧
      ∀ shape', compile method shape' schema = .ok { q with shape := shape' } := by
  by_cases hall : MethodKind.classify method false = .findAll
  · rw [compile, if_pos hall] at h
    cases h
    exact ⟨rfl, rfl, fun shape' => if_pos hall⟩
  · cases hparse : MethodQuery.parse method with
    | error failure =>
      rw [compile, if_neg hall, hparse] at h
      cases h
    | ok parsed =>
      obtain ⟨hfields, hkeys, rfl⟩ := (compile_eq_ok_iff hparse).1 h
      exact ⟨rfl, rfl, fun shape' => (compile_eq_ok_iff hparse).2 ⟨hfields, hkeys, rfl⟩⟩

/-- What is found is some of the records of the store, none of them twice. -/
theorem distinct_of_find {records : List Record} {request : Option PageRequest}
    (hs : q.schema.Distinct s.records) (h : q.find f args s = .ok (records, request)) :
    q.schema.Distinct records := by
  obtain ⟨-, cs, found, sorted, hcs, hfound, hsorted, rfl⟩ := find_eq_ok_iff.1 h
  obtain ⟨-, rfl⟩ := Filter.select_eq_ok_iff.1 hfound
  have hstable := stablySorted_sortRecords (SortKey.lawful_recordComparators hcs) hsorted
  exact ((hs.sublist List.filter_sublist).perm hstable.perm).sublist (pageOf_sublist _ _)

/-- Only a find answers with many records. -/
theorem finds_of_toList (hq : compile method shape schema = .ok q) {result : QueryResult}
    {records : List Record} (hrun : q.execute args s = (.ok result, s'))
    (hlist : result.toList = .ok records) : q.kind.finds = true := by
  rcases kind_of_compile hq with hk | ⟨-, hk | hk⟩
  · exact hk
  · obtain ⟨-, _, _, _, _, _, -, -, -, -, -, rfl⟩ := (execute_reduction_iff hk).1 hrun
    cases hkind : q.kind with
    | derivedExists =>
      rw [hkind] at hlist
      cases hlist
    | _ =>
      rw [hkind] at hlist
      cases hlist
  · cases hf : q.filter args with
    | error failure =>
      rw [execute_of_error hf] at hrun
      cases hrun
    | ok f =>
      rw [execute_removal hk hf, Prod.mk.injEq, map_eq_ok] at hrun
      obtain ⟨⟨n, -, rfl⟩, -⟩ := hrun
      split at hlist <;> cases hlist

/-- What any query that finds records answers has different identifiers. -/
theorem nodup_toList (hq : compile method shape schema = .ok q)
    (hs : schema.Distinct s.records) {result : QueryResult} {records : List Record}
    (hrun : q.execute args s = (.ok result, s')) (hlist : result.toList = .ok records) :
    (records.map schema.identifier.read).Nodup := by
  obtain ⟨rfl, rfl, -⟩ := compile_shape hq
  have hk := finds_of_toList hq hrun hlist
  rw [execute_eq (MethodKind.ne_delete_of_finds hk), Prod.mk.injEq] at hrun
  simp only [bind_eq_ok, answer_eq hk] at hrun
  obtain ⟨⟨f, -, ⟨found, request⟩, hfind, page, -, hresult⟩, -⟩ := hrun
  cases hresult
  have hfound : ((q.schema.instances found).map q.schema.identifier.read).Nodup :=
    distinct_of_find hs hfind
  rwa [QueryResult.eq_of_toList_adapt hfound hlist]

/-- Where a method answers with a list, the set that it answers with loses none of the records. -/
theorem answers_set (hq : compile method .list schema = .ok q)
    (hs : schema.Distinct s.records) {result : QueryResult} {records : List Record}
    (hrun : q.execute args s = (.ok result, s')) (hlist : result.toList = .ok records) :
    ∃ members, Answers method schema args s .set (.set members) ∧
      members.entries = schema.entriesOf records := by
  have hidentifiers := nodup_toList hq hs hrun hlist
  have hk := finds_of_toList hq hrun hlist
  obtain ⟨rfl, hshape, hset⟩ := compile_shape hq
  have hpage : q.shape ≠ .page := by
    rw [hshape]
    decide
  obtain ⟨rfl, f, cs, found, sorted, page, hf, hcs, hfound, hsorted, hshown, rfl⟩ :=
    (execute_find_iff hk (.inl hpage)).1 hrun
  rw [hshape] at hlist
  cases hlist
  obtain ⟨members, hmembers, hentries⟩ := QueryResult.adapt_set hidentifiers page
  refine ⟨members, ⟨_, hset .set, ?_⟩, hentries⟩
  rw [← hmembers]
  refine (execute_find_iff ?_ (.inl ?_)).2
    ⟨rfl, f, cs, found, sorted, page, hf, hcs, hfound, hsorted, hshown, rfl⟩
  · exact hk
  · exact ResultShape.noConfusion

end DerivedQuery

end EntityStore
