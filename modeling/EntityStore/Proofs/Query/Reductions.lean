import EntityStore.Proofs.Paging.Pages
import EntityStore.Proofs.Query.Twins
import EntityStore.Proofs.Sorting.Comparable

/-!
# Counting and testing on a page

A count and a test reduce the records that are found to one answer, but where a page is asked for
only the page is reduced.  So a page among the arguments changes a count unless it is the first page
and has room for all records, and it changes a test unless it starts before the last record.

    q.execute args s = (.ok result, s') ↔ s' = s ∧ … ∧
      result = q.kind.reduction (pageOf request sorted).length             (execute_reduction_iff)
    kind.reduction (r.holding n) = kind.reduction n ↔ n = 0 ∨ kind.Covers r n
                                                                        (reduction_holding_eq_iff)
-/

namespace EntityStore

/-! ## Pages of a number of records -/

namespace PageRequest

/-- How many of `n` records are on the page. -/
def holding (r : PageRequest) (n : Nat) : Nat := min (n - r.skip) r.size.toNat

/-- Only on the first page is nothing skipped. -/
theorem skip_eq_zero_iff {r : PageRequest} : r.skip = 0 ↔ r.page = 1 := by
  have hsize := r.size_pos
  have hpage := r.page_pos
  have hlimit : UInt64.size - 1 ≠ 0 := by decide
  have hbefore : r.skip = 0 ↔ r.size.toNat * (r.page.toNat - 1) = 0 := by
    rw [skip]
    omega
  rw [hbefore, Nat.mul_eq_zero, ← UInt64.toNat_inj]
  show _ ↔ r.page.toNat = 1
  omega

end PageRequest

theorem DerivedQuery.length_pageOf (r : PageRequest) (records : List Record) :
    (pageOf (some r) records).length = r.holding records.length := by
  rw [pageOf, List.length_take, List.length_drop, Nat.min_comm]
  rfl

/-! ## Reductions -/

namespace MethodKind

/-- Whether methods of the kind reduce the records that they find. -/
def reduces : MethodKind → Bool
  | derivedCount => true
  | derivedExists => true
  | _ => false

/-- What a method that reduces answers where it finds `n` records. -/
def reduction (kind : MethodKind) (n : Nat) : QueryResult :=
  match kind with
  | derivedExists => .boolean (n ≠ 0)
  | _ => .count n

/-- The page has all of `n` records that the method asks about: a count asks about all of them, a
test about any. -/
def Covers (kind : MethodKind) (r : PageRequest) (n : Nat) : Prop :=
  match kind with
  | derivedExists => r.skip < n
  | _ => r.page = 1 ∧ n ≤ r.size.toNat

variable {kind : MethodKind}

theorem ne_delete_of_reduces (h : kind.reduces = true) : kind ≠ derivedDelete := by
  rintro rfl
  cases h

theorem reduction_holding_eq_iff {r : PageRequest} {n : Nat} :
    kind.reduction (r.holding n) = kind.reduction n ↔ n = 0 ∨ kind.Covers r n := by
  have hsize := r.size_pos
  have hcount : r.holding n = n ↔ n = 0 ∨ (r.page = 1 ∧ n ≤ r.size.toNat) := by
    rw [← PageRequest.skip_eq_zero_iff, PageRequest.holding]
    omega
  have hexists : (r.holding n ≠ 0 ↔ n ≠ 0) ↔ n = 0 ∨ r.skip < n := by
    rw [PageRequest.holding]
    omega
  cases kind with
  | derivedExists =>
    show QueryResult.boolean (r.holding n ≠ 0) = QueryResult.boolean (n ≠ 0) ↔ n = 0 ∨ r.skip < n
    rw [QueryResult.boolean.injEq, decide_eq_decide]
    exact hexists
  | _ =>
    show QueryResult.count (r.holding n) = QueryResult.count n ↔
      n = 0 ∨ (r.page = 1 ∧ n ≤ r.size.toNat)
    rw [QueryResult.count.injEq]
    exact hcount

end MethodKind

/-! ## Running -/

namespace DerivedQuery

/-- Any query but `findAll` is what its name parses to. -/
theorem exists_parsed_of_compile {method : String} {shape : ResultShape} {schema : Schema}
    {q : DerivedQuery} (h : compile method shape schema = .ok q) (hk : q.kind ≠ .findAll) :
    ∃ parsed, MethodQuery.parse method = .ok parsed ∧
      q = ⟨method, parsed.kind, shape, some parsed.condition, parsed.sorts, schema⟩ := by
  by_cases hall : MethodKind.classify method false = .findAll
  · rw [compile, if_pos hall] at h
    cases h
    exact absurd rfl hk
  · cases hparse : MethodQuery.parse method with
    | error failure =>
      rw [compile, if_neg hall, hparse] at h
      cases h
    | ok parsed => exact ⟨parsed, rfl, ((compile_eq_ok_iff hparse).1 h).2.2⟩

variable {q : DerivedQuery} {args : List Argument} {f : Filter} {s s' : Store}
  {result : QueryResult}

theorem answer_reduction (hk : q.kind.reduces = true) :
    q.answer args f s = (q.find f args s).map fun found => q.kind.reduction found.1.length := by
  rw [answer]
  cases q.find f args s with
  | error failure => rfl
  | ok found =>
    obtain ⟨records, request⟩ := found
    cases hkind : q.kind with
    | derivedCount => rfl
    | derivedExists => cases records <;> rfl
    | _ => rw [hkind] at hk; cases hk

/-- A call that reduces what it finds, taken apart. -/
theorem execute_reduction_iff (hk : q.kind.reduces = true) :
    q.execute args s = (.ok result, s') ↔ s' = s ∧ ∃ f cs found sorted request,
      q.filter args = .ok f ∧
      q.requestedPage args s.settings.defaultPageSize = .ok request ∧
      SortKey.recordComparators q.schema (q.sorts ++ Argument.allSortKeys args) = .ok cs ∧
      f.select s.records = .ok found ∧ sortRecords cs found = .ok sorted ∧
      result = q.kind.reduction (pageOf request sorted).length := by
  rw [execute_eq (MethodKind.ne_delete_of_reduces hk), Prod.mk.injEq, and_comm, @eq_comm _ s s']
  refine and_congr_right fun _ => ?_
  simp only [bind_eq_ok, answer_reduction hk, map_eq_ok]
  constructor
  · rintro ⟨f, hf, ⟨records, request⟩, hfind, rfl⟩
    obtain ⟨hrequest, cs, found, sorted, hcs, hfound, hsorted, rfl⟩ := find_eq_ok_iff.1 hfind
    exact ⟨f, cs, found, sorted, request, hf, hrequest, hcs, hfound, hsorted, rfl⟩
  · rintro ⟨f, cs, found, sorted, request, hf, hrequest, hcs, hfound, hsorted, rfl⟩
    exact ⟨f, hf, (_, request),
      find_eq_ok_iff.2 ⟨hrequest, cs, found, sorted, hcs, hfound, hsorted, rfl⟩, rfl⟩

end DerivedQuery

/-! ## One more page -/

namespace Argument

variable (xs ys : List Argument) (page : PageRequest)

/-- The page that comes first counts. -/
theorem firstPage?_insert :
    firstPage? (xs ++ .page page :: ys) = some ((firstPage? xs).getD page) := by
  rw [firstPage?, List.findSome?_append, List.findSome?_cons]
  show (firstPage? xs).or (some page) = _
  cases firstPage? xs <;> rfl

theorem values_insert_page : values (xs ++ .page page :: ys) = values (xs ++ ys) := by
  rw [values, values, List.filterMap_append, List.filterMap_append]
  rfl

theorem allSortKeys_insert_page {page : PageRequest} (h : page.sorts = []) :
    allSortKeys (xs ++ .page page :: ys) = allSortKeys (xs ++ ys) := by
  rw [allSortKeys, allSortKeys, List.flatMap_append, List.flatMap_append, List.flatMap_cons,
    sortKeys, h]
  rfl

end Argument

namespace DerivedQuery

/-- **A count and a test reduce the page that comes first.**  A page without sort keys may be added
to the arguments of a call anywhere: the call succeeds as before, and reduces the page that comes
first.  That is the answer for all records of the type which the condition accepts, exactly where
there are none or the page has what the method asks about; a call without a page gives that answer.
-/
theorem reduces_first_page {method : String} {shape : ResultShape} {schema : Schema}
    {q : DerivedQuery} {xs ys : List Argument} {page : PageRequest} {s s' : Store}
    {result : QueryResult} (hq : compile method shape schema = .ok q)
    (hk : q.kind.reduces = true) (hkeys : page.sorts = [])
    (hrun : q.execute (xs ++ ys) s = (.ok result, s')) :
    ∃ parsed f rest, MethodQuery.parse method = .ok parsed ∧
      parsed.condition.bind schema (Argument.values (xs ++ ys)) = .ok (f, rest) ∧
      let n := (s.instancesWhere schema f).length
      let first := (Argument.firstPage? xs).getD page
      q.execute (xs ++ .page page :: ys) s = (.ok (q.kind.reduction (first.holding n)), s) ∧
      (q.execute (xs ++ .page page :: ys) s = (.ok (q.kind.reduction n), s) ↔
        n = 0 ∨ q.kind.Covers first n) ∧
      (Argument.firstPage? (xs ++ ys) = none → shape ≠ .page → result = q.kind.reduction n) := by
  have hall : q.kind ≠ .findAll := by
    intro hall
    rw [hall] at hk
    cases hk
  obtain ⟨parsed, hparsed, rfl⟩ := exists_parsed_of_compile hq hall
  obtain ⟨rfl, g, cs, found, sorted, request, hg, hrequest, hcs, hfound, hsorted, rfl⟩ :=
    (execute_reduction_iff hk).1 hrun
  obtain ⟨⟨f, rest⟩, hbind, rfl⟩ := map_eq_ok.1 hg
  have hlength : sorted.length = (s'.instancesWhere schema f).length := by
    rw [← Store.eq_instancesWhere_of_select hfound]
    exact (stablySorted_sortRecords (SortKey.lawful_recordComparators hcs) hsorted).perm.length_eq
  have hpaged : execute ⟨method, parsed.kind, shape, some parsed.condition, parsed.sorts, schema⟩
      (xs ++ .page page :: ys) s' =
        (.ok (parsed.kind.reduction (((Argument.firstPage? xs).getD page).holding
          (s'.instancesWhere schema f).length)), s') := by
    refine (execute_reduction_iff hk).2 ⟨rfl, f.onInstances schema, cs, found, sorted,
      some ((Argument.firstPage? xs).getD page), ?_, ?_, ?_, hfound, hsorted, ?_⟩
    · rw [filter, Argument.values_insert_page]
      exact hg
    · rw [requestedPage, Argument.firstPage?_insert]
    · rw [Argument.allSortKeys_insert_page _ _ hkeys]
      exact hcs
    · rw [length_pageOf, hlength]
  refine ⟨parsed, f, rest, hparsed, hbind, hpaged, ?_, fun hnone hshape => ?_⟩
  · rw [hpaged, Prod.mk.injEq, and_iff_left rfl, Except.ok.injEq]
    exact MethodKind.reduction_holding_eq_iff
  · rw [requestedPage_eq (.inl hshape), hnone] at hrequest
    cases hrequest
    rw [← hlength]
    rfl

/-- Two books of an edition, of which the second page of size one shows one, after a test that
looks behind the last of them. -/
theorem reduces_first_page_second_of_two :
    let read (name : String) (read : Record → Value) : Accessor := ⟨name, "Book", "Book", read⟩
    let schema : Schema := ⟨"Book", "Book", read "isbn" fun r => .integer (.ofNat r.id),
      [read "edition" fun r => .integer (.ofNat (r.id % 2))]⟩
    let store := Store.hydrate (.ofEntries [(.integer 4, ⟨4, "Book"⟩), (.integer 1, ⟨1, "Book"⟩),
      (.text "draft", ⟨3, "Note"⟩), (.integer 5, ⟨5, "Book"⟩)]) {}
    let second : PageRequest := ⟨1, 2, [], by decide, by decide⟩
    let third : PageRequest := ⟨1, 3, [], by decide, by decide⟩
    Answers "countByEdition" schema [.value (.integer 1), .page second] store .count (.count 1) ∧
      Answers "existsByEdition" schema [.page third, .value (.integer 1)] store .boolean
        (.boolean false) := by
  intro read schema store second third
  let condition := Condition.comparison "edition" .eq .parameter
  have hcount : compile "countByEdition" .count schema =
      .ok ⟨"countByEdition", .derivedCount, .count, some condition, [], schema⟩ := rfl
  have hexists : compile "existsByEdition" .boolean schema =
      .ok ⟨"existsByEdition", .derivedExists, .boolean, some condition, [], schema⟩ := rfl
  have hcounts : execute ⟨"countByEdition", .derivedCount, .count, some condition, [], schema⟩
      ([.value (.integer 1)] ++ []) store = (.ok (.count 2), store) := rfl
  have htests : execute ⟨"existsByEdition", .derivedExists, .boolean, some condition, [], schema⟩
      ([] ++ [.value (.integer 1)]) store = (.ok (.boolean true), store) := rfl
  have hsecond : second.sorts = [] := rfl
  have hthird : third.sorts = [] := rfl
  obtain ⟨_, f, _, hparse, hbind, hpaged, -⟩ := reduces_first_page hcount rfl hsecond hcounts
  obtain ⟨_, g, _, hparse', hbind', hpaged', -⟩ := reduces_first_page hexists rfl hthird htests
  cases hparse
  cases hbind
  cases hparse'
  cases hbind'
  exact ⟨⟨_, hcount, hpaged⟩, _, hexists, hpaged'⟩

/-- A page among the arguments may make a count too small. -/
theorem counted_page_short_of_records :
    let read (name : String) (read : Record → Value) : Accessor := ⟨name, "Book", "Book", read⟩
    let schema : Schema := ⟨"Book", "Book", read "isbn" fun r => .integer (.ofNat r.id),
      [read "title" fun _ => .text "Dune"]⟩
    let store :=
      Store.hydrate (.ofEntries [(.integer 1, ⟨1, "Book"⟩), (.integer 2, ⟨2, "Book"⟩)]) {}
    let first : PageRequest := ⟨1, 1, [], by decide, by decide⟩
    ¬ ∀ q result s', compile "countByTitle" .count schema = .ok q →
      q.execute [.value (.text "Dune")] store = (.ok result, s') →
        q.execute [.value (.text "Dune"), .page first] store = (.ok result, s') := by
  intro read schema store first hclaim
  have hcount := hclaim ⟨"countByTitle", .derivedCount, .count,
    some (.comparison "title" .eq .parameter), [], schema⟩ (.count 2) store rfl rfl
  have hrun : execute ⟨"countByTitle", .derivedCount, .count,
      some (.comparison "title" .eq .parameter), [], schema⟩
      [.value (.text "Dune"), .page first] store = (.ok (.count 1), store) := rfl
  rw [hrun] at hcount
  cases hcount

end DerivedQuery

end EntityStore
