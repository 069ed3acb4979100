import EntityStore.Proofs.Query.Selection
import EntityStore.Proofs.Storage.Operation
import EntityStore.Query.Derived

/-!
# What a derived find answers

A find by a method name filters, sorts and cuts out a page, and the shape of the method only decides
how the page is handed over.  The records that are found are those of all entries that hold an
instance of the type which the condition accepts, stably sorted by the keys of the name and then
those of the arguments.

    StablySorted (Comparator.chain cs) (s.instancesWhere schema f) all ∧
      result = .list (pageOf (Argument.firstPage? args) all) ∧ s' = s ∧ …      (find_answers)
-/

namespace EntityStore

/-- Whether methods of the kind answer with the records that they find. -/
def MethodKind.finds : MethodKind → Bool
  | derivedFind => true
  | findAll => true
  | _ => false

theorem MethodKind.ne_delete_of_finds {kind : MethodKind} (h : kind.finds = true) :
    kind ≠ derivedDelete := by
  rintro rfl
  cases h

namespace DerivedQuery

/-- The records on a page, or all of them where no page is asked for. -/
def pageOf (request : Option PageRequest) (records : List Record) : List Record :=
  match request with
  | some r => (records.drop r.skip).take r.size.toNat
  | none => records

/-- The request that an answer shows. -/
def shownPage (request : Option PageRequest) (s : Store) : Except Failure PageRequest :=
  match request with
  | some r => .ok r
  | none => PageRequest.ofSize s.settings.defaultPageSize

/-- The query of a name compiles for a shape, and a call answers and leaves the store alone. -/
def Answers (method : String) (schema : Schema) (args : List Argument) (s : Store)
    (shape : ResultShape) (result : QueryResult) : Prop :=
  ∃ q, compile method shape schema = .ok q ∧ q.execute args s = (.ok result, s)

/-! ## Compiling -/

/-- Where a find compiles, it compiles for every shape. -/
theorem compile_find {method : String} {shape : ResultShape} {schema : Schema} {q : DerivedQuery}
    (h : compile method shape schema = .ok q) (hk : q.kind = .derivedFind) :
    ∃ parsed, MethodQuery.parse method = .ok parsed ∧
      ∀ shape', compile method shape' schema =
        .ok ⟨method, .derivedFind, shape', some parsed.condition, parsed.sorts, schema⟩ := by
  unfold compile at h
  split at h
  · cases h
    cases hk
  · next hall =>
    obtain ⟨parsed, hparsed, h⟩ := bind_eq_ok.1 h
    obtain ⟨u, hfields, h⟩ := bind_eq_ok.1 h
    obtain ⟨cs, hcs, h⟩ := bind_eq_ok.1 h
    cases h
    refine ⟨parsed, hparsed, ?_⟩
    intro shape'
    rw [compile, if_neg hall, ← hk, bind_eq_ok]
    exact ⟨parsed, hparsed, bind_eq_ok.2 ⟨u, hfields, bind_eq_ok.2 ⟨cs, hcs, rfl⟩⟩⟩

/-! ## Finding -/

section Find

variable {q : DerivedQuery} {args : List Argument} {f : Filter} {s s' : Store}
  {records : List Record} {request : Option PageRequest} {result : QueryResult}

/-- No page is of size zero, which would stand for no limit. -/
theorem window_eq_pageOf (request : Option PageRequest) (records : List Record) :
    Store.window (request.elim 0 PageRequest.skip) (request.elim 0 (·.size.toNat)) records
      = pageOf request records := by
  cases request with
  | none => rfl
  | some r =>
    have hsize : r.size.toNat ≠ 0 := fun h => r.size_ne_zero (UInt64.toNat_inj.1 h)
    exact if_neg hsize

/-- A find in terms of the page that it asks for. -/
theorem find_eq (q : DerivedQuery) (f : Filter) (args : List Argument) (s : Store) :
    q.find f args s = (do
      let cs ← SortKey.recordComparators q.schema (q.sorts ++ Argument.allSortKeys args)
      let request ← q.requestedPage args s.settings.defaultPageSize
      let records ← s.select f cs (request.elim 0 PageRequest.skip)
        (request.elim 0 (·.size.toNat))
      pure (records, request)) := by
  unfold find
  congr
  funext cs
  congr
  funext request
  cases request with
  | none => rfl
  | some r => rfl

/-- Only a query for a page asks for one of its own accord. -/
theorem requestedPage_eq (hp : q.shape ≠ .page ∨ (Argument.firstPage? args).isSome)
    (standardSize : UInt64) :
    q.requestedPage args standardSize = .ok (Argument.firstPage? args) := by
  unfold requestedPage
  cases hfirst : Argument.firstPage? args with
  | some r => rfl
  | none =>
    rcases hp with hshape | hsome
    · exact if_neg hshape
    · rw [hfirst] at hsome
      cases hsome

theorem find_eq_ok_iff :
    q.find f args s = .ok (records, request) ↔
      q.requestedPage args s.settings.defaultPageSize = .ok request ∧
      ∃ cs found sorted,
        SortKey.recordComparators q.schema (q.sorts ++ Argument.allSortKeys args) = .ok cs ∧
        f.select s.records = .ok found ∧ sortRecords cs found = .ok sorted ∧
        records = pageOf request sorted := by
  rw [find_eq]
  simp only [bind_eq_ok]
  constructor
  · rintro ⟨cs, hcs, request', hrequest, records', hselect, h⟩
    cases h
    obtain ⟨found, sorted, hfound, hsorted, rfl⟩ := Store.select_eq_ok_iff.1 hselect
    exact ⟨hrequest, cs, found, sorted, hcs, hfound, hsorted, window_eq_pageOf _ _⟩
  · rintro ⟨hrequest, cs, found, sorted, hcs, hfound, hsorted, rfl⟩
    refine ⟨cs, hcs, request, hrequest, _,
      Store.select_eq_ok_iff.2 ⟨found, sorted, hfound, hsorted, rfl⟩, ?_⟩
    rw [window_eq_pageOf]
    rfl

/-- What a find answers is adapted to its shape. -/
theorem answer_eq (hk : q.kind.finds = true) :
    q.answer args f s = (do
      let found ← q.find f args s
      let page ← shownPage found.2 s
      pure (.adapt q.schema q.shape (q.schema.instances found.1) page)) := by
  unfold answer
  congr
  funext ⟨records, request⟩
  cases hkind : q.kind with
  | derivedFind => cases request <;> rfl
  | findAll => cases request <;> rfl
  | _ => rw [hkind] at hk; cases hk

/-- Only a removal touches the store. -/
theorem execute_eq (hk : q.kind ≠ .derivedDelete) :
    q.execute args s = (q.filter args >>= fun f => q.answer args f s, s) := by
  rw [execute, Store.settled_bind]
  cases q.filter args with
  | error failure => rfl
  | ok f => exact congrFun (if_neg hk) s

theorem execute_of_error {failure : Failure} (hf : q.filter args = .error failure) :
    q.execute args s = (.error failure, s) := by
  rw [execute, Store.settled_bind, hf]

/-- A removal answers with the number of records only if its shape asks for that. -/
theorem execute_removal (hk : q.kind = .derivedDelete) (hf : q.filter args = .ok f) :
    q.execute args s = ((Store.removeWhere f s).1.map fun n =>
      if q.shape = .count then .count n else .unit, (Store.removeWhere f s).2) := by
  rw [execute, Store.settled_bind, hf]
  dsimp only
  rw [if_pos hk, Store.bind_pure_apply]

/-- A call that finds records, taken apart. -/
theorem execute_find_iff (hk : q.kind.finds = true)
    (hp : q.shape ≠ .page ∨ (Argument.firstPage? args).isSome) :
    q.execute args s = (.ok result, s') ↔ s' = s ∧ ∃ f cs found sorted page,
      q.filter args = .ok f ∧
      SortKey.recordComparators q.schema (q.sorts ++ Argument.allSortKeys args) = .ok cs ∧
      f.select s.records = .ok found ∧ sortRecords cs found = .ok sorted ∧
      shownPage (Argument.firstPage? args) s = .ok page ∧
      result = .adapt q.schema q.shape
        (q.schema.instances (pageOf (Argument.firstPage? args) sorted)) page := by
  rw [execute_eq (MethodKind.ne_delete_of_finds hk), Prod.mk.injEq, and_comm, @eq_comm _ s s']
  refine and_congr_right fun _ => ?_
  simp only [bind_eq_ok, answer_eq hk]
  constructor
  · rintro ⟨f, hf, ⟨records, request⟩, hfind, page, hpage, h⟩
    cases h
    obtain ⟨hrequest, cs, found, sorted, hcs, hfound, hsorted, rfl⟩ := find_eq_ok_iff.1 hfind
    rw [requestedPage_eq hp] at hrequest
    cases hrequest
    exact ⟨f, cs, found, sorted, page, hf, hcs, hfound, hsorted, hpage, rfl⟩
  · rintro ⟨f, cs, found, sorted, page, hf, hcs, hfound, hsorted, hpage, rfl⟩
    have hfind := find_eq_ok_iff.2
      ⟨requestedPage_eq hp _, cs, found, sorted, hcs, hfound, hsorted, rfl⟩
    exact ⟨f, hf, (_, _), hfind, page, hpage, rfl⟩

end Find

theorem pageOf_sublist (request : Option PageRequest) (records : List Record) :
    (pageOf request records).Sublist records := by
  cases request with
  | none => exact List.Sublist.refl records
  | some r => exact (List.take_sublist _ _).trans (List.drop_sublist _ _)

/-- Where all records are instances, none is lost on the way to the answer. -/
theorem instances_pageOf {schema : Schema} {request : Option PageRequest} {records : List Record}
    (h : ∀ r ∈ records, schema.isInstance r = true) :
    schema.instances (pageOf request records) = pageOf request records := by
  apply List.filter_eq_self.2
  intro r hr
  exact h r ((pageOf_sublist request records).subset hr)

/-! ## Top theorem -/

/-- **A derived find is sound, complete, ordered and cut to its page.**  A call that succeeds
answers with a page of the records of all entries that hold an instance of the type which the bound
condition accepts, each entry once, stably sorted by the keys of the name and then those of the
arguments.  The other shapes hand the same records over, and no shape touches the store. -/
theorem find_answers {method : String} {schema : Schema} {q : DerivedQuery}
    {args : List Argument} {s s' : Store} {result : QueryResult}
    (hq : compile method .list schema = .ok q) (hk : q.kind = .derivedFind)
    (hrun : q.execute args s = (.ok result, s')) :
    ∃ parsed f rest cs sorted,
      MethodQuery.parse method = .ok parsed ∧
      parsed.condition.bind schema (Argument.values args) = .ok (f, rest) ∧
      SortKey.comparators schema (parsed.sorts ++ Argument.allSortKeys args) = .ok cs ∧
      StablySorted (Comparator.chain cs) (s.instancesWhere schema f) sorted ∧
      let page := Argument.firstPage? args
      let found := pageOf page sorted
      result = .list found ∧ s' = s ∧
      Answers method schema args s .stream (.stream found) ∧
      Answers method schema args s .deque (.deque found) ∧
      (∀ r, page = some r → Answers method schema args s .page (.page ⟨found, r⟩)) ∧
      Answers method schema args s .optional (.optional found.head?) ∧
      Answers method schema args s .single (.single found.head?) ∧
      Answers method schema args s .boolean (.boolean (!found.isEmpty)) ∧
      Answers method schema args s .count (.count found.length) := by
  obtain ⟨parsed, hparsed, hcompile⟩ := compile_find hq hk
  rw [hcompile .list] at hq
  cases hq
  obtain ⟨rfl, g, cs, found, sorted, shown, hg, hcs, hfound, hsorted, hshown, rfl⟩ :=
    (execute_find_iff rfl (.inl ResultShape.noConfusion)).1 hrun
  obtain ⟨⟨f, rest⟩, hbind, rfl⟩ := map_eq_ok.1 hg
  have hselected : found = s'.instancesWhere schema f := Store.eq_instancesWhere_of_select hfound
  have hinst : ∀ r ∈ found, schema.isInstance r = true := by
    intro r hr
    rw [hselected] at hr
    exact (Store.mem_instancesWhere.1 hr).2.1
  obtain ⟨ds, hds, hstable⟩ := stablySorted_of_keys hinst hcs hsorted
  have hpage : schema.instances (pageOf (Argument.firstPage? args) sorted)
      = pageOf (Argument.firstPage? args) sorted :=
    instances_pageOf fun r hr => hinst r (hstable.perm.subset hr)
  have hanswer : ∀ shape, (shape ≠ .page ∨ (Argument.firstPage? args).isSome) →
      Answers method schema args s' shape
        (.adapt schema shape (pageOf (Argument.firstPage? args) sorted) shown) := by
    intro shape hshape
    refine ⟨_, hcompile shape, (execute_find_iff rfl hshape).2 ⟨rfl, ?_⟩⟩
    refine ⟨_, cs, found, sorted, shown, hg, hcs, hfound, hsorted, hshown, ?_⟩
    rw [hpage]
  rw [hselected] at hstable
  refine ⟨parsed, f, rest, ds, sorted, hparsed, hbind, hds, hstable, ?_, rfl,
    hanswer .stream (.inl (by decide)), hanswer .deque (.inl (by decide)), ?_,
    hanswer .optional (.inl (by decide)), hanswer .single (.inl (by decide)),
    hanswer .boolean (.inl (by decide)), hanswer .count (.inl (by decide))⟩
  · rw [hpage]
    rfl
  · intro r hr
    have hshown' : shown = r := by
      rw [hr] at hshown
      cases hshown
      rfl
    have h := hanswer .page (.inr (by rw [hr]; rfl))
    rw [hshown'] at h
    exact h

/-- One of two books of the same edition, among other records, on the second page of size one. -/
theorem find_answers_second_page :
    let read (name : String) (read : Record → Value) : Accessor := ⟨name, "Book", "Book", read⟩
    let schema : Schema := ⟨"Book", "Book", read "isbn" fun r => .integer (.ofNat r.id),
      [read "edition" fun r => .integer (.ofNat (r.id % 2))]⟩
    let store := Store.hydrate (.ofEntries [(.integer 4, ⟨4, "Book"⟩), (.integer 1, ⟨1, "Book"⟩),
      (.text "draft", ⟨3, "Note"⟩), (.integer 5, ⟨5, "Book"⟩)]) {}
    let second : PageRequest := ⟨1, 2, [], by decide, by decide⟩
    Answers "findByEditionOrderByIsbnDesc" schema [.page second, .value (.integer 1)] store .page
      (.page ⟨[⟨1, "Book"⟩], second⟩) := by
  intro read schema store second
  have hcheck : ((compile "findByEditionOrderByIsbnDesc" .list schema).toOption.any fun q =>
      q.kind = .derivedFind &&
        ((q.execute [.page second, .value (.integer 1)] store).1 >>= QueryResult.toList).toOption
          = some [⟨1, "Book"⟩]) = true := by
    decide +kernel
  cases hq : compile "findByEditionOrderByIsbnDesc" .list schema with
  | error failure => rw [hq] at hcheck; cases hcheck
  | ok q =>
    rw [hq] at hcheck
    obtain ⟨hk, hrecords⟩ := Bool.and_eq_true_iff.1 hcheck
    replace hrecords := of_decide_eq_true hrecords
    rcases hrun : q.execute [.page second, .value (.integer 1)] store with ⟨outcome, s'⟩
    rw [hrun] at hrecords
    cases outcome with
    | error failure => cases hrecords
    | ok result =>
      obtain ⟨parsed, f, rest, cs, sorted, -, -, -, -, rfl, -, -, -, hpage, -⟩ :=
        find_answers hq (of_decide_eq_true hk) hrun
      have hanswer := hpage second rfl
      rw [Option.some.inj hrecords] at hanswer
      exact hanswer

end DerivedQuery

end EntityStore
