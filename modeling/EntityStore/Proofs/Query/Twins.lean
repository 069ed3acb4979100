import EntityStore.Proofs.MethodName.Division
import EntityStore.Proofs.Query.CallByCall
import EntityStore.Proofs.Query.DerivedFind

/-!
# A name and a row of calls find the same

A query may be asked for by the name of a method or built call by call.  The name is compiled once
and the values of its parameters come with each call of it; the builder has every value at hand.
Where the name compiles, the calls succeed, and both find the same records or fail alike.

    q.execute args s = ((sel.result s).map .list, s)                    (execute_eq_result)
-/

namespace EntityStore

/-! ## Inquiries -/

/-- What may be asked for either way: criteria, sort keys and perhaps a page. -/
structure Inquiry where
  first : Criterion
  rest : List (Conjunction × Criterion)
  keys : List SortKey
  page : Option PageRequest

namespace Inquiry

def condition (i : Inquiry) : Condition :=
  i.first.condition.combineAll (i.rest.map fun next => (next.1, next.2.condition))

/-- The values of the parameters, in the order of the criteria. -/
def values (i : Inquiry) : List Value := i.first.values ++ i.rest.flatMap (·.2.values)

/-- The calls that ask for it.  The first criterion finds nothing to be joined to, so it may come
with either conjunction. -/
def calls (i : Inquiry) : List SelectionCall :=
  i.first.calls .and ++ (i.rest.flatMap fun next => next.2.calls next.1) ++
    (i.keys.map fun key => .orderBy key.property key.direction) ++ Selection.pageCalls i.page

theorem fields_condition (i : Inquiry) :
    i.condition.fields = i.first.field :: i.rest.map (·.2.field) := by
  rw [condition, Condition.fields_combineAll, Criterion.fields_condition, List.flatMap_map,
    List.map_eq_flatMap]
  simp only [Criterion.fields_condition, List.singleton_append]

theorem builds_calls {schema : Schema} {i : Inquiry}
    (hfields : ∀ field ∈ i.condition.fields, ∃ accessor, schema.resolve field = .ok accessor)
    (hkeys : ∀ key ∈ i.keys, ∃ accessor, schema.resolve key.property = .ok accessor) :
    Selection.Builds (· = { builder := { schema := schema } }) i.calls
      (Selection.Asks schema i.condition i.values i.keys (i.page.elim 0 PageRequest.skip)
        (i.page.elim 0 (·.size.toNat))) := by
  rw [fields_condition, List.forall_mem_cons, List.forall_mem_map] at hfields
  obtain ⟨accessor, haccessor⟩ := hfields.1
  exact (((Selection.builds_first haccessor).append (Selection.builds_rest hfields.2)).append
    (Selection.builds_sorts hkeys)).append (Selection.builds_page i.page)

end Inquiry

/-! ## Compiling -/

theorem Condition.checkFields_eq_ok_iff {schema : Schema} {c : Condition} :
    c.checkFields schema = .ok () ↔
      ∀ field ∈ c.fields, ∃ accessor, schema.resolve field = .ok accessor := by
  rw [checkFields, forM_eq_ok_iff]
  refine forall₂_congr fun field _ => ?_
  rw [map_eq_ok]
  constructor
  · rintro ⟨accessor, h, -⟩
    exact ⟨accessor, h⟩
  · rintro ⟨accessor, h⟩
    exact ⟨accessor, h, rfl⟩

theorem SortKey.exists_comparators_iff {schema : Schema} {keys : List SortKey} :
    (∃ cs, comparators schema keys = .ok cs) ↔
      ∀ key ∈ keys, ∃ accessor, schema.resolve key.property = .ok accessor := by
  rw [comparators, exists_mapM_iff]
  refine forall₂_congr fun key _ => ?_
  simp only [comparator, map_eq_ok]
  constructor
  · rintro ⟨_, accessor, h, -⟩
    exact ⟨accessor, h⟩
  · rintro ⟨accessor, h⟩
    exact ⟨_, accessor, h, rfl⟩

theorem SortKey.exists_recordComparators {schema : Schema} {keys : List SortKey}
    (h : ∀ key ∈ keys, ∃ accessor, schema.resolve key.property = .ok accessor) :
    ∃ cs, recordComparators schema keys = .ok cs := by
  unfold recordComparators
  split
  · exact ⟨[], rfl⟩
  · obtain ⟨cs, hcs⟩ := exists_comparators_iff.2 h
    exact ⟨_, map_eq_ok.2 ⟨cs, hcs, rfl⟩⟩

theorem PageRequest.exists_ofSize {size : UInt64} (h : size ≠ 0) : ∃ r, ofSize size = .ok r :=
  ⟨⟨size, 1, [], h, by decide⟩, dif_neg h⟩

namespace DerivedQuery

/-- A name that parses is not the one name `findAll`. -/
theorem classify_ne_findAll {name : String} {parsed : MethodQuery}
    (h : MethodQuery.parse name = .ok parsed) : MethodKind.classify name false ≠ .findAll := by
  intro hall
  have hname : name ≠ "findAll" := by
    rintro rfl
    cases h
  rw [MethodKind.classify, if_neg Bool.false_ne_true, if_neg hname] at hall
  split at hall
  · next kind body hderived =>
    obtain ⟨lead, hlead, -⟩ := MethodName.derived?_eq_some_iff.1 hderived
    rw [hall] at hlead
    simp [MethodKind.leads] at hlead
  · cases hall

theorem compile_eq_ok_iff {name : String} {shape : ResultShape} {schema : Schema}
    {parsed : MethodQuery} {q : DerivedQuery} (h : MethodQuery.parse name = .ok parsed) :
    compile name shape schema = .ok q ↔
      parsed.condition.checkFields schema = .ok () ∧
      (∃ cs, SortKey.comparators schema parsed.sorts = .ok cs) ∧
      q = ⟨name, parsed.kind, shape, some parsed.condition, parsed.sorts, schema⟩ := by
  rw [compile, if_neg (classify_ne_findAll h), h]
  show (parsed.condition.checkFields schema >>= fun _ => SortKey.comparators schema parsed.sorts >>=
    fun _ => pure _) = _ ↔ _
  simp only [bind_eq_ok]
  constructor
  · rintro ⟨_, hfields, cs, hcs, hq⟩
    cases hq
    exact ⟨hfields, ⟨cs, hcs⟩, rfl⟩
  · rintro ⟨hfields, ⟨cs, hcs⟩, rfl⟩
    exact ⟨(), hfields, cs, hcs, rfl⟩

theorem compile_eq_error {name : String} {schema : Schema} {parsed : MethodQuery}
    {failure : Failure} (h : MethodQuery.parse name = .ok parsed)
    (hfields : parsed.condition.checkFields schema = .error failure) (shape : ResultShape) :
    compile name shape schema = .error failure := by
  rw [compile, if_neg (classify_ne_findAll h), h]
  show (parsed.condition.checkFields schema >>= _) = _
  rw [hfields]
  rfl

/-- An answer shows a page even where none is asked for, and fails where that page has no size. -/
theorem exists_shownPage (request : Option PageRequest) {s : Store}
    (h : s.settings.defaultPageSize ≠ 0) : ∃ page, shownPage request s = .ok page := by
  cases request with
  | some r => exact ⟨r, rfl⟩
  | none => exact PageRequest.exists_ofSize h

/-- A find for a list, in terms of its parts. -/
theorem execute_list {name : String} {c : Condition} {keys : List SortKey} {schema : Schema}
    {args : List Argument} {s : Store} (hsorts : Argument.allSortKeys args = [])
    (hsize : s.settings.defaultPageSize ≠ 0) :
    execute ⟨name, .derivedFind, .list, some c, keys, schema⟩ args s = ((do
      let f ← c.recordFilter schema (Argument.values args)
      let cs ← SortKey.recordComparators schema keys
      let records ← s.select f cs ((Argument.firstPage? args).elim 0 PageRequest.skip)
        ((Argument.firstPage? args).elim 0 (·.size.toNat))
      pure (.list (schema.instances records))), s) := by
  obtain ⟨page, hpage⟩ := exists_shownPage (Argument.firstPage? args) hsize
  rw [execute_eq MethodKind.noConfusion]
  congr 2
  funext f
  rw [answer_eq rfl, find_eq, requestedPage_eq (.inl ResultShape.noConfusion), hsorts,
    List.append_nil]
  cases SortKey.recordComparators schema keys with
  | error failure => rfl
  | ok cs =>
    show ((s.select f cs _ _ >>= fun records => pure (records, Argument.firstPage? args)) >>=
      fun found => shownPage found.2 s >>= _) = _
    simp only [bind_assoc, pure_bind, hpage]
    rfl

/-- **A name and a row of calls find the same.**  Where a name asks for some criteria and sort keys
and compiles, the calls for these succeed as well, and the selection that they build finds what a
call of the name finds that brings the operands and the page, on every store: the same records in
the same order, or the same failure. -/
theorem execute_eq_result {name : String} {i : Inquiry} {schema : Schema} {q : DerivedQuery}
    {args : List Argument}
    (hparse : MethodQuery.parse name = .ok ⟨.derivedFind, i.condition, i.keys⟩)
    (hcompile : compile name .list schema = .ok q) (hvalues : Argument.values args = i.values)
    (hpage : Argument.firstPage? args = i.page) (hsorts : Argument.allSortKeys args = []) :
    ∃ sel, Selection.run { builder := { schema := schema } } i.calls = .ok sel ∧
      ∀ s : Store, s.settings.defaultPageSize ≠ 0 →
        q.execute args s = ((sel.result s).map .list, s) := by
  obtain ⟨hfields, hkeys, rfl⟩ := (compile_eq_ok_iff hparse).1 hcompile
  obtain ⟨sel, hrun, hasks⟩ := Inquiry.builds_calls (Condition.checkFields_eq_ok_iff.1 hfields)
    (SortKey.exists_comparators_iff.1 hkeys) 0 _ rfl
  refine ⟨sel, hrun, ?_⟩
  intro s hsize
  rw [execute_list hsorts hsize, hasks.result_eq, hvalues, hpage]
  show _ = (QueryResult.list <$> _, s)
  simp only [map_eq_pure_bind, bind_assoc, pure_bind]

/-- The second page of those books that are of another edition than the first or are signed.  The
last attribute is asked for in camel case. -/
theorem execute_eq_result_second_page :
    let read (name : String) (read : Record → Value) : Accessor := ⟨name, "Book", "Book", read⟩
    let schema : Schema := ⟨"Book", "Book", read "isbn" fun r => .integer (.ofNat r.id),
      [read "edition" fun r => .integer (.ofNat (r.id % 2)),
        read "is_signed" fun r => .boolean (r.id == 5)]⟩
    let store := Store.hydrate (.ofEntries [(.integer 4, ⟨4, "Book"⟩), (.integer 1, ⟨1, "Book"⟩),
      (.text "draft", ⟨3, "Note"⟩), (.integer 5, ⟨5, "Book"⟩)]) {}
    let second : PageRequest := ⟨1, 2, [], by decide, by decide⟩
    let otherEdition : Criterion := ⟨"edition", true, .isIn, .list [.integer 1], ⟨_, rfl⟩⟩
    let isSigned : Criterion := ⟨"isSigned", false, .isTrue, .boolean true, rfl⟩
    let i : Inquiry := ⟨otherEdition, [(.or, isSigned)], [⟨"isbn", .desc⟩], some second⟩
    ∃ q sel,
      compile "findByEditionNotInOrIsSignedTrueOrderByIsbnDesc" .list schema = .ok q ∧
      Selection.run { builder := { schema := schema } } i.calls = .ok sel ∧
      sel.result store = .ok [⟨4, "Book"⟩] ∧
      q.execute [.page second, .value (.list [.integer 1])] store =
        (.ok (.list [⟨4, "Book"⟩]), store) := by
  intro read schema store second otherEdition isSigned i
  have hparse : MethodQuery.parse "findByEditionNotInOrIsSignedTrueOrderByIsbnDesc" =
      .ok ⟨.derivedFind, i.condition, i.keys⟩ := rfl
  have hcompile : (compile "findByEditionNotInOrIsSignedTrueOrderByIsbnDesc" .list
      schema).toOption.isSome = true := by
    decide +kernel
  have hfound : ((Selection.run { builder := { schema := schema } } i.calls).toOption.bind
      fun sel => (sel.result store).toOption) = some [⟨4, "Book"⟩] := by
    decide +kernel
  cases hq : compile "findByEditionNotInOrIsSignedTrueOrderByIsbnDesc" .list schema with
  | error failure => rw [hq] at hcompile; cases hcompile
  | ok q =>
    have hvalues : Argument.values [.page second, .value (.list [.integer 1])] = i.values := rfl
    obtain ⟨sel, hrun, hexecute⟩ := execute_eq_result hparse hq hvalues rfl rfl
    rw [hrun] at hfound
    have hresult : sel.result store = .ok [⟨4, "Book"⟩] := by
      cases hsel : sel.result store with
      | error failure => simp [Except.toOption, hsel] at hfound
      | ok records => simpa [Except.toOption, hsel] using hfound
    refine ⟨q, sel, rfl, hrun, hresult, ?_⟩
    rw [hexecute store (by decide), hresult]
    rfl

end DerivedQuery

end EntityStore
