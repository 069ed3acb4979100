import EntityStore.Proofs.MethodName.Lead
import EntityStore.Proofs.Query.Twins
import EntityStore.Proofs.Sorting.Comparable
import EntityStore.Proofs.Storage.Removal

/-!
# Queries of one body

What follows the lead of a name asks the same of a find, a count, a test and a removal.  A count
tells how many records the find gives, a test whether there are any, and a removal takes them away
and nothing else.  Only a count with a page for its shape is different: it looks no further than the
standard page.

    findBy Body  finds records →
      countBy Body   answers the number of the records, of a page at most the standard size
      existsBy Body  answers whether there are records
      deleteBy Body  answers the number of the records and leaves the entries without them
                                                                             (same_body_agrees)
-/

namespace EntityStore

namespace DerivedQuery

variable {q : DerivedQuery} {args : List Argument} {f : Filter} {s s' t : Store}
  {schema : Schema} {records : List Record} {n : Nat}

/-! ## Compiling -/

/-- Where a name compiles, it compiles with every lead and for every shape, to the same condition
and sort keys. -/
theorem compile_lead {lead body : String} {kind : MethodKind} {shape : ResultShape}
    (hlead : (lead, kind) ∈ MethodKind.leads)
    (h : compile (lead ++ body) shape schema = .ok q) :
    ∃ parsed, MethodQuery.parse (lead ++ body) = .ok parsed ∧
      q = ⟨lead ++ body, kind, shape, some parsed.condition, parsed.sorts, schema⟩ ∧
      ∀ lead' kind', (lead', kind') ∈ MethodKind.leads → ∀ shape',
        compile (lead' ++ body) shape' schema =
          .ok ⟨lead' ++ body, kind', shape', some parsed.condition, parsed.sorts, schema⟩ := by
  have hparses : ∃ parsed, MethodQuery.parse (lead ++ body) = .ok parsed := by
    unfold compile at h
    rw [MethodKind.classify_append hlead, if_neg (MethodKind.ne_findAll_of_mem_leads hlead)] at h
    obtain ⟨parsed, hparsed, -⟩ := bind_eq_ok.1 h
    exact ⟨parsed, hparsed⟩
  obtain ⟨parsed, hparsed⟩ := hparses
  obtain ⟨hfields, hkeys, rfl⟩ := (compile_eq_ok_iff hparsed).1 h
  refine ⟨parsed, hparsed, ?_, ?_⟩
  · rw [(MethodQuery.parse_lead hlead hlead hparsed).1]
  · intro lead' kind' hlead' shape'
    have hparsed' := (MethodQuery.parse_lead hlead hlead' hparsed).2
    exact (compile_eq_ok_iff hparsed').2 ⟨hfields, hkeys, rfl⟩

/-! ## What the queries of one body have in common -/

/-- A call without a page selects by a filter some records, which it sorts, and there is a standard
page. -/
structure Selects (schema : Schema) (c : Condition) (keys : List SortKey) (args : List Argument)
    (s : Store) (f : Filter) (records : List Record) : Prop where
  unpaged : Argument.firstPage? args = none
  bound : c.recordFilter schema (Argument.values args) = .ok f
  sorted : ∃ cs found,
    SortKey.recordComparators schema (keys ++ Argument.allSortKeys args) = .ok cs ∧
    f.select s.records = .ok found ∧ sortRecords cs found = .ok records
  standardSize : s.settings.defaultPageSize ≠ 0

section
variable {c : Condition} {keys : List SortKey}

theorem selects_of_find {method : String} (hnone : Argument.firstPage? args = none)
    (hrun : execute ⟨method, .derivedFind, .list, some c, keys, schema⟩ args s =
      (.ok (.list records), s')) : s' = s ∧ ∃ f, Selects schema c keys args s f records := by
  obtain ⟨rfl, f, cs, found, sorted, page, hf, hcs, hfound, hsorted, hpage, hresult⟩ :=
    (execute_find_iff rfl (.inl ResultShape.noConfusion)).1 hrun
  obtain ⟨bound, -, rfl⟩ := map_eq_ok.1 hf
  rw [hnone] at hpage hresult
  have hperm := (stablySorted_sortRecords (SortKey.lawful_recordComparators hcs) hsorted).perm
  have hinst : ∀ r ∈ sorted, schema.isInstance r = true := by
    intro r hr
    have hmem := hperm.subset hr
    rw [Store.eq_instancesWhere_of_select hfound] at hmem
    exact (Store.mem_instancesWhere.1 hmem).2.1
  obtain rfl : records = sorted := by
    cases hresult
    exact instances_pageOf hinst
  refine ⟨rfl, _, hnone, hf, ⟨cs, found, hcs, hfound, hsorted⟩, ?_⟩
  intro hzero
  rw [shownPage, PageRequest.ofSize, PageRequest.make, dif_pos hzero] at hpage
  cases hpage

variable (h : Selects schema c keys args s f records)
include h

/-- As many records are found as the filter accepts. -/
theorem Selects.length_eq : (s.records.filter f.accepts).length = records.length := by
  obtain ⟨cs, found, hcs, hfound, hsorted⟩ := h.sorted
  rw [← (Filter.select_eq_ok_iff.1 hfound).2]
  have hstable := stablySorted_sortRecords (SortKey.lawful_recordComparators hcs) hsorted
  exact hstable.perm.length_eq.symm

/-- A query for a page finds the first records of its own accord, and any other finds them all. -/
theorem Selects.exists_find (method : String) (kind : MethodKind) (shape : ResultShape) :
    ∃ request, find ⟨method, kind, shape, some c, keys, schema⟩ f args s = .ok
      (if shape = .page then records.take s.settings.defaultPageSize.toNat else records,
        request) := by
  obtain ⟨cs, found, hcs, hfound, hsorted⟩ := h.sorted
  let page : PageRequest := ⟨s.settings.defaultPageSize, 1, [], h.standardSize, by decide⟩
  have hpage : PageRequest.ofSize s.settings.defaultPageSize = .ok page := dif_neg h.standardSize
  have hskip : page.skip = 0 := Nat.min_eq_left (Nat.zero_le _)
  refine ⟨if shape = .page then some page else none, find_eq_ok_iff.2 ⟨?_, cs, found, records, hcs,
    hfound, hsorted, ?_⟩⟩
  · rw [requestedPage, h.unpaged, hpage]
    dsimp only
    split <;> rfl
  · split
    · rw [pageOf, hskip]
      rfl
    · rfl

/-! ## Counting, testing and removing -/

/-- A count looks no further than the page that it asks for. -/
theorem Selects.execute_count (method : String) (shape : ResultShape) :
    execute ⟨method, .derivedCount, shape, some c, keys, schema⟩ args s =
      (.ok (.count (if shape = .page then min records.length s.settings.defaultPageSize.toNat
        else records.length)), s) := by
  have hfilter : filter ⟨method, .derivedCount, shape, some c, keys, schema⟩ args = .ok f := h.bound
  obtain ⟨request, hfind⟩ := h.exists_find method .derivedCount shape
  rw [execute_eq MethodKind.noConfusion, hfilter]
  show (answer _ args f s, s) = _
  rw [answer, hfind]
  show (Except.ok (QueryResult.count (List.length _)), s) = _
  rw [apply_ite List.length, List.length_take, Nat.min_comm]

/-- Whether there are records is seen on the first page. -/
theorem Selects.execute_exists (method : String) (shape : ResultShape) :
    execute ⟨method, .derivedExists, shape, some c, keys, schema⟩ args s =
      (.ok (.boolean (!records.isEmpty)), s) := by
  have hfilter : filter ⟨method, .derivedExists, shape, some c, keys, schema⟩ args = .ok f :=
    h.bound
  obtain ⟨request, hfind⟩ := h.exists_find method .derivedExists shape
  have hsize : s.settings.defaultPageSize.toNat ≠ 0 :=
    fun hzero => h.standardSize (UInt64.toNat_inj.1 hzero)
  have hempty : (if shape = .page then records.take s.settings.defaultPageSize.toNat
      else records).isEmpty = records.isEmpty := by
    split
    · rw [Bool.eq_iff_iff, List.isEmpty_iff, List.isEmpty_iff, List.take_eq_nil_iff,
        or_iff_right hsize]
    · rfl
  rw [execute_eq MethodKind.noConfusion, hfilter]
  show (answer _ args f s, s) = _
  rw [answer, hfind]
  show (Except.ok (QueryResult.boolean (!List.isEmpty _)), s) = _
  rw [hempty]

/-- A removal takes all that the filter accepts; neither sorting nor a page stands in its way. -/
theorem Selects.removeWhere_eq :
    Store.removeWhere f s = (.ok records.length, s.replaceContents (s.contents.without f)) := by
  obtain ⟨cs, found, hcs, hfound, hsorted⟩ := h.sorted
  exact Store.removeWhere_eq_ok_iff.2
    ⟨(Filter.select_eq_ok_iff.1 hfound).1, h.length_eq.symm, rfl⟩

end

theorem execute_delete (hk : q.kind = .derivedDelete) (hshape : q.shape = .count)
    (hf : q.filter args = .ok f) (h : Store.removeWhere f s = (.ok n, t)) :
    q.execute args s = (.ok (.count n), t) := by
  rw [execute_removal hk hf, h, hshape]
  rfl

/-! ## Top theorem -/

/-- **Queries of one body agree.**  Where a find by a name succeeds, without a page among the
arguments, so do the count, the test and the removal by the same name after another lead.  The count
is that of the records found, except that a count with a page for its shape stops at the standard
size; the test tells whether there are records.  The removal answers how many records were found,
leaves exactly the entries that hold no instance which the condition accepts, and commits the
container and nothing else; done again it removes nothing. -/
theorem same_body_agrees {body : String}
    (hq : compile ("findBy" ++ body) .list schema = .ok q)
    (hnone : Argument.firstPage? args = none)
    (hrun : q.execute args s = (.ok (.list records), s')) :
    (∀ shape, Answers ("countBy" ++ body) schema args s shape
      (.count (if shape = .page then min records.length s.settings.defaultPageSize.toNat
        else records.length))) ∧
    (∀ shape, Answers ("existsBy" ++ body) schema args s shape (.boolean (!records.isEmpty))) ∧
    ∃ parsed f rest d t t',
      MethodQuery.parse ("findBy" ++ body) = .ok parsed ∧
      parsed.condition.bind schema (Argument.values args) = .ok (f, rest) ∧
      compile ("deleteBy" ++ body) .count schema = .ok d ∧
      d.execute args s = (.ok (.count records.length), t) ∧
      (∀ k r, t.contents.get? k = some r ↔
        s.contents.get? k = some r ∧ ¬(schema.isInstance r = true ∧ f r = .ok true)) ∧
      t.commits = s.commits ++ [.container t.contents] ∧
      d.execute args t = (.ok (.count 0), t') ∧ t'.contents = t.contents := by
  have hfind : ("findBy", .derivedFind) ∈ MethodKind.leads := by simp [MethodKind.leads]
  have hcount : ("countBy", .derivedCount) ∈ MethodKind.leads := by simp [MethodKind.leads]
  have hexists : ("existsBy", .derivedExists) ∈ MethodKind.leads := by simp [MethodKind.leads]
  have hdelete : ("deleteBy", .derivedDelete) ∈ MethodKind.leads := by simp [MethodKind.leads]
  obtain ⟨parsed, hparsed, rfl, hcompile⟩ := compile_lead hfind hq
  obtain ⟨rfl, g, h⟩ := selects_of_find hnone hrun
  obtain ⟨⟨f, rest⟩, hbind, rfl⟩ := map_eq_ok.1 h.bound
  obtain ⟨t', hagain, hsame⟩ := Store.removeWhere_again h.removeWhere_eq
  refine ⟨fun shape => ⟨_, hcompile _ _ hcount shape, h.execute_count _ shape⟩,
    fun shape => ⟨_, hcompile _ _ hexists shape, h.execute_exists _ shape⟩,
    parsed, f, rest, _, _, t', hparsed, hbind, hcompile _ _ hdelete .count,
    execute_delete rfl rfl h.bound h.removeWhere_eq, fun k r => ?_, rfl,
    execute_delete rfl rfl h.bound hagain, hsame⟩
  have haccepts : (f.onInstances schema).accepts r = false ↔
      ¬(schema.isInstance r = true ∧ f r = .ok true) := by
    rw [← Bool.not_eq_true, Filter.accepts_onInstances, Bool.and_eq_true, Filter.accepts_iff]
  exact Container.get?_without_eq_some_iff.trans (and_congr_right fun _ => haccepts)

/-- Two books of an edition in a store whose standard page holds one record. -/
theorem same_body_agrees_standard_page_of_one :
    let read (name : String) (read : Record → Value) : Accessor := ⟨name, "Book", "Book", read⟩
    let schema : Schema := ⟨"Book", "Book", read "isbn" fun r => .integer (.ofNat r.id),
      [read "edition" fun r => .integer (.ofNat (r.id % 2))]⟩
    let store := Store.hydrate (.ofEntries [(.integer 4, ⟨4, "Book"⟩), (.integer 1, ⟨1, "Book"⟩),
      (.text "draft", ⟨3, "Note"⟩), (.integer 5, ⟨5, "Book"⟩)]) { defaultPageSize := 1 }
    let args : List Argument := [.value (.integer 1)]
    Answers "countByEdition" schema args store .count (.count 2) ∧
      Answers "countByEdition" schema args store .page (.count 1) ∧
      Answers "existsByEdition" schema args store .page (.boolean true) := by
  intro read schema store args
  have hq : compile ("findBy" ++ "Edition") .list schema =
      .ok ⟨"findByEdition", .derivedFind, .list,
        some (.comparison "edition" .eq .parameter), [], schema⟩ := rfl
  have hrun : execute ⟨"findByEdition", .derivedFind, .list,
      some (.comparison "edition" .eq .parameter), [], schema⟩ args store =
      (.ok (.list [⟨1, "Book"⟩, ⟨5, "Book"⟩]), store) := rfl
  obtain ⟨hcount, hexists, -⟩ := same_body_agrees hq rfl hrun
  exact ⟨hcount .count, hcount .page, hexists .page⟩

/-- A count with a page for its shape does not always tell how many records there are. -/
theorem page_count_short_of_records :
    let read (name : String) (read : Record → Value) : Accessor := ⟨name, "Book", "Book", read⟩
    let schema : Schema := ⟨"Book", "Book", read "isbn" fun r => .integer (.ofNat r.id),
      [read "title" fun _ => .text "Dune"]⟩
    let store := Store.hydrate (.ofEntries [(.integer 1, ⟨1, "Book"⟩), (.integer 2, ⟨2, "Book"⟩)])
      { defaultPageSize := 1 }
    let args : List Argument := [.value (.text "Dune")]
    ¬ ∀ q records s', compile "findByTitle" .list schema = .ok q →
      q.execute args store = (.ok (.list records), s') →
        Answers "countByTitle" schema args store .page (.count records.length) := by
  intro read schema store args hclaim
  let condition := Condition.comparison "title" .eq .parameter
  obtain ⟨q, hq, hrun⟩ := hclaim ⟨"findByTitle", .derivedFind, .list, some condition, [], schema⟩
    [⟨1, "Book"⟩, ⟨2, "Book"⟩] store rfl rfl
  have hq' : compile "countByTitle" .page schema =
      .ok ⟨"countByTitle", .derivedCount, .page, some condition, [], schema⟩ := rfl
  have hrun' :
      execute ⟨"countByTitle", .derivedCount, .page, some condition, [], schema⟩ args store =
        (.ok (.count 1), store) := rfl
  rw [hq'] at hq
  cases hq
  rw [hrun'] at hrun
  cases hrun

end DerivedQuery

end EntityStore
