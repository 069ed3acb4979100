import EntityStore.Proofs.Query.DerivedFind
import EntityStore.Repository.BaseVocabulary
import Mathlib.Algebra.Group.Nat.Defs

/-!
# Pages partition a result

A page holds the positions from `size * (page - 1)` up to `size * page` of the sorted instances,
also where these numbers are too large for 64 bits: so many records there are not.  Whoever asks for
one page after the other, from the first until one has no content, has come by all instances.

    m.findPage r s =
      (.ok ⟨(sorted.take (size * page)).drop (size * (page - 1)), r⟩, s)            (findPage_eq)
    m.Walk s r pages → pages.flatMap (·.content) = sorted.drop (size * (page - 1))  (exists_walk)
-/

namespace EntityStore

/-! ## Positions -/

namespace PageRequest

/-- Number of records on all pages before the one that is asked for. -/
def before (r : PageRequest) : Nat := r.size.toNat * (r.page.toNat - 1)

/-- Number of records on the page that is asked for and all pages before it. -/
def upTo (r : PageRequest) : Nat := r.size.toNat * r.page.toNat

theorem size_pos (r : PageRequest) : 0 < r.size.toNat :=
  Nat.pos_of_ne_zero fun h => r.size_ne_zero (UInt64.toNat_inj.1 h)

theorem page_pos (r : PageRequest) : 0 < r.page.toNat :=
  Nat.pos_of_ne_zero fun h => r.page_ne_zero (UInt64.toNat_inj.1 h)

theorem before_add_size (r : PageRequest) : r.before + r.size.toNat = r.upTo := by
  have hpage := r.page_pos
  rw [before, upTo, ← Nat.mul_succ]
  congr 1
  omega

theorem before_lt_upTo (r : PageRequest) : r.before < r.upTo := by
  have hsize := r.size_pos
  have h := r.before_add_size
  omega

/-- The next page starts where this one ends, unless this one has the largest number. -/
theorem before_next {r : PageRequest} (h : r.page.toNat + 1 < UInt64.size) :
    r.next.before = r.upTo := by
  rw [before, upTo, size_next, toNat_page_next]
  congr 1
  omega

/-- What is left before a page is the page and what is left after it. -/
theorem drop_before_eq (r : PageRequest) (records : List Record) :
    records.drop r.before = (records.take r.upTo).drop r.before ++ records.drop r.upTo := by
  have h := r.before_lt_upTo
  rw [List.drop_take, ← Nat.add_sub_cancel' (Nat.le_of_lt h), ← List.drop_drop,
    Nat.add_sub_cancel_left, List.take_append_drop]

end PageRequest

/-- A skip that stopped at the largest number skips all records there can be. -/
theorem DerivedQuery.pageOf_eq_slice {r : PageRequest} {records : List Record}
    (h : records.length < UInt64.size) :
    pageOf (some r) records = (records.take r.upTo).drop r.before := by
  show (records.drop (min r.before (UInt64.size - 1))).take r.size.toNat = _
  rw [List.drop_take, Nat.sub_eq_of_eq_add' r.before_add_size.symm]
  by_cases hskip : r.before ≤ UInt64.size - 1
  · rw [Nat.min_eq_left hskip]
  · rw [List.drop_eq_nil_of_le (by omega), List.drop_eq_nil_of_le (by omega)]

/-! ## One page -/

namespace Manager

variable {m : Manager} {s : Store} {r : PageRequest} {keys : List SortKey} {cs : List Comparator}
  {sorted : List Record}

section
variable (hcs : SortKey.recordComparators m.schema keys = .ok cs)
  (hsorted : sortRecords cs (m.schema.instances s.records) = .ok sorted)
include hcs hsorted

theorem stablySorted_instances : ∃ ds, SortKey.comparators m.schema keys = .ok ds ∧
    StablySorted (Comparator.chain ds) (m.schema.instances s.records) sorted :=
  stablySorted_of_keys (fun _ hr => (List.mem_filter.1 hr).2) hcs hsorted

theorem findPage_eq_pageOf (hr : r.sorts = keys) :
    m.findPage r s = (.ok ⟨DerivedQuery.pageOf (some r) sorted, r⟩, s) := by
  have hcompile : DerivedQuery.compile "findAll" .page m.schema =
      .ok ⟨"findAll", .findAll, .page, none, [], m.schema⟩ := if_pos rfl
  have hsorts : [] ++ Argument.allSortKeys [.page r] = keys := by
    rw [← hr]
    exact List.append_nil _
  obtain ⟨ds, -, hstable⟩ := stablySorted_instances hcs hsorted
  have hpage : m.schema.instances (DerivedQuery.pageOf (some r) sorted)
      = DerivedQuery.pageOf (some r) sorted := by
    refine DerivedQuery.instances_pageOf fun x hx => ?_
    exact (List.mem_filter.1 (hstable.perm.subset hx)).2
  have hexecute : DerivedQuery.execute ⟨"findAll", .findAll, .page, none, [], m.schema⟩ [.page r] s
      = (.ok (.page ⟨DerivedQuery.pageOf (some r) sorted, r⟩), s) := by
    refine (DerivedQuery.execute_find_iff rfl (.inr rfl)).2 ⟨rfl, _, cs, _, sorted, r, rfl, ?_,
      Filter.select_always m.schema s.records, hsorted, rfl, ?_⟩
    · rw [hsorts]
      exact hcs
    · rw [← hpage]
      rfl
  rw [findPage, Store.settled_bind, hcompile]
  exact Store.bind_ok hexecute

variable (hsize : s.contents.size < 2 ^ 63)
include hsize

/-- There are no more instances than entries. -/
theorem length_sorted_lt : sorted.length < 2 ^ 63 := by
  obtain ⟨ds, -, hstable⟩ := stablySorted_instances hcs hsorted
  have hle : (m.schema.instances s.records).length ≤ s.records.length := List.length_filter_le _ _
  have hrecords : s.records.length = s.contents.size := List.length_map _
  rw [hstable.perm.length_eq]
  omega

theorem findPage_eq (hr : r.sorts = keys) :
    m.findPage r s = (.ok ⟨(sorted.take r.upTo).drop r.before, r⟩, s) := by
  have hlength := length_sorted_lt hcs hsorted hsize
  have hlt : sorted.length < UInt64.size := by
    rw [UInt64.size]
    omega
  rw [findPage_eq_pageOf hcs hsorted hr, DerivedQuery.pageOf_eq_slice hlt]

end

/-! ## One page after the other -/

/-- Someone asks for a page, and then for the one that follows it as long as there is content. -/
inductive Walk (m : Manager) (s : Store) : PageRequest → List Page → Prop
  | last {r : PageRequest} {page : Page} (hfind : m.findPage r s = (.ok page, s))
    (hend : page.hasContent = false) : Walk m s r [page]
  | next {r : PageRequest} {page : Page} {rest : List Page}
    (hfind : m.findPage r s = (.ok page, s)) (hgo : page.hasContent = true)
    (hrest : Walk m s page.nextRequest rest) : Walk m s r (page :: rest)

/-- There is one way to go. -/
theorem Walk.unique {pages pages' : List Page} (h : m.Walk s r pages) (h' : m.Walk s r pages') :
    pages = pages' := by
  induction h generalizing pages' with
  | last hfind hend =>
    cases h' with
    | last hfind' _ =>
      rw [hfind] at hfind'
      cases hfind'
      rfl
    | next hfind' hgo _ =>
      rw [hfind] at hfind'
      cases hfind'
      rw [hend] at hgo
      cases hgo
  | next hfind hgo _ ih =>
    cases h' with
    | last hfind' hend =>
      rw [hfind] at hfind'
      cases hfind'
      rw [hend] at hgo
      cases hgo
    | next hfind' _ hrest' =>
      rw [hfind] at hfind'
      cases hfind'
      rw [ih hrest']

section
variable (hcs : SortKey.recordComparators m.schema keys = .ok cs)
  (hsorted : sortRecords cs (m.schema.instances s.records) = .ok sorted)
  (hsize : s.contents.size < 2 ^ 63)
include hcs hsorted hsize

/-- A walk ends, and has come by everything from its first page on. -/
theorem exists_walk (hr : r.sorts = keys) : ∃ pages, m.Walk s r pages ∧
    pages.flatMap (·.content) = sorted.drop r.before := by
  -- Each step leaves fewer records to come by.
  induction hn : sorted.length - r.before using Nat.strongRecOn generalizing r with
  | _ n ih =>
    have hfind := findPage_eq hcs hsorted hsize hr
    have hlt := r.before_lt_upTo
    have hlength : ((sorted.take r.upTo).drop r.before).length
        = min r.upTo sorted.length - r.before := by
      rw [List.length_drop, List.length_take]
    by_cases hmore : r.before < sorted.length
    · have hgo : ((sorted.take r.upTo).drop r.before).isEmpty = false := by
        rw [← Bool.not_eq_true, List.isEmpty_iff_length_eq_zero]
        omega
      -- There are fewer records than numbers of pages, so the next page has a number.
      have hpage : r.page.toNat - 1 ≤ r.before := Nat.le_mul_of_pos_left _ r.size_pos
      have hnext : r.next.before = r.upTo := by
        have hbound := length_sorted_lt hcs hsorted hsize
        refine PageRequest.before_next ?_
        rw [UInt64.size]
        omega
      obtain ⟨rest, hwalk, hcontent⟩ :=
        ih _ (by rw [hnext]; omega) ((PageRequest.sorts_next r).trans hr) rfl
      refine ⟨_, .next hfind (by rw [Page.hasContent, hgo]; rfl) hwalk, ?_⟩
      rw [List.flatMap_cons, hcontent, hnext]
      exact (r.drop_before_eq sorted).symm
    · have hend : (sorted.take r.upTo).drop r.before = [] := by
        rw [← List.length_eq_zero_iff]
        omega
      refine ⟨_, .last hfind (by rw [Page.hasContent, hend]; rfl), ?_⟩
      rw [List.flatMap_singleton, hend, List.drop_eq_nil_of_le (Nat.le_of_not_lt hmore)]

/-! ## Top theorem -/

/-- **Pages partition a result.**  Where the keys sort the instances of the type, each page holds
its positions of the sorted instances, computed without a bound on numbers.  Whoever starts at the
first page and asks for the next one until there is no content comes to an end, has one way to go,
and has seen each instance once, in sorted order. -/
theorem pages_partition_sorted :
    ∃ ds, SortKey.comparators m.schema keys = .ok ds ∧
      StablySorted (Comparator.chain ds) (m.schema.instances s.records) sorted ∧
      (∀ r : PageRequest, r.sorts = keys → m.findPage r s =
        (.ok ⟨(sorted.take (r.size.toNat * r.page.toNat)).drop
          (r.size.toNat * (r.page.toNat - 1)), r⟩, s)) ∧
      ∀ (size : UInt64) (hne : size ≠ 0), ∃ pages,
        m.Walk s ⟨size, 1, keys, hne, by decide⟩ pages ∧
        (∀ pages', m.Walk s ⟨size, 1, keys, hne, by decide⟩ pages' → pages' = pages) ∧
        pages.flatMap (·.content) = sorted := by
  obtain ⟨ds, hds, hstable⟩ := stablySorted_instances hcs hsorted
  refine ⟨ds, hds, hstable, fun r hr => findPage_eq hcs hsorted hsize hr, fun size hne => ?_⟩
  obtain ⟨pages, hwalk, hcontent⟩ :=
    exists_walk hcs hsorted hsize (r := ⟨size, 1, keys, hne, by decide⟩) rfl
  exact ⟨pages, hwalk, fun pages' hwalk' => hwalk'.unique hwalk, hcontent⟩

end

/-- Three books on pages of two, the last in front, and a page whose number of records before it is
too large for 64 bits. -/
theorem pages_partition_sorted_three_books :
    let isbn : Attribute := ⟨"isbn", .identifier, fun r => .integer (.ofNat r.id)⟩
    let book : EntityType := ⟨"Book", "Book", [isbn]⟩
    let schema : Schema := ⟨"Book", "Book", book.accessor isbn, []⟩
    let m : Manager := ⟨⟨[schema]⟩, book, schema⟩
    let s := Store.hydrate (.ofEntries [(.integer 2, ⟨2, "Book"⟩), (.text "draft", ⟨3, "Note"⟩),
      (.integer 5, ⟨5, "Book"⟩), (.integer 1, ⟨1, "Book"⟩)]) {}
    let keys : List SortKey := [⟨"isbn", .desc⟩]
    let second : PageRequest := ⟨2, 2, keys, by decide, by decide⟩
    let largest : PageRequest := ⟨UInt64.ofNatLT 18446744073709551615 (by decide),
      UInt64.ofNatLT 18446744073709551615 (by decide), keys, by decide, by decide⟩
    m.findPage second s = (.ok ⟨[⟨1, "Book"⟩], second⟩, s) ∧
      m.findPage largest s = (.ok ⟨[], largest⟩, s) ∧
      ∃ pages, m.Walk s ⟨2, 1, keys, by decide, by decide⟩ pages ∧
        pages.flatMap (·.content) = [⟨5, "Book"⟩, ⟨2, "Book"⟩, ⟨1, "Book"⟩] := by
  intro isbn book schema m s keys second largest
  have hcs : SortKey.recordComparators m.schema keys = .ok _ := rfl
  obtain ⟨ds, -, -, hpages, hwalk⟩ := pages_partition_sorted (s := s) hcs rfl (by decide)
  obtain ⟨pages, hpages', -, hcontent⟩ := hwalk 2 (by decide)
  exact ⟨hpages second rfl, hpages largest rfl, pages, hpages', hcontent⟩

end Manager

end EntityStore
