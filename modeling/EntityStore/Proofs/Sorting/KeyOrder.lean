import EntityStore.Proofs.Sorting.Comparable

/-!
# Sorting by keys

Sort keys give comparators of records of any type, one for each key or one for a row of keys.
However they are put in a row, sorting by them succeeds exactly where they do not fail on two of
the records, although it compares only some pairs, and then is a stable sort.  Where they do fail
the failure of such a pair is returned, unless the sort of more than twenty records panics on what
it is told after the failure.

    (∃ failure, sortRecords cs rs = .error failure) ↔
      ∃ failure, (Comparator.chain cs).FailsOn rs failure
    sortRecords cs rs = .error .inconsistentOrder ↔ SortPanics (Comparator.chain cs) rs
                                                                          (sorts_fails_or_panics)
-/

namespace EntityStore

namespace Comparator

variable {c : Comparator} {rs : List Record}

theorem not_comparable_iff {a b : Record} :
    ¬ c.Comparable a b ↔ ∃ failure, c a b = .error failure := by
  unfold Comparable
  cases c a b with
  | error failure => simp
  | ok o => simp

/-- Where not all records can be compared, two at different places cannot. -/
theorem exists_failsOn_iff (hc : Coherent c) :
    (∃ failure, c.FailsOn rs failure) ↔ ¬ rs.Pairwise c.Comparable := by
  rw [List.pairwise_iff_getElem]
  constructor
  · rintro ⟨failure, i, j, hi, hj, hne, hab⟩ hall
    have hnot : ¬ c.Comparable rs[i] rs[j] := not_comparable_iff.2 ⟨failure, hab⟩
    rcases Nat.lt_or_gt_of_ne hne with hlt | hgt
    · exact hnot (hall i j hi hj hlt)
    · exact hnot ((hall j i hj hi hgt).symm hc)
  · intro hnot
    simp only [not_forall] at hnot
    obtain ⟨i, j, hi, hj, hlt, hnot⟩ := hnot
    obtain ⟨failure, hab⟩ := not_comparable_iff.1 hnot
    exact ⟨failure, i, j, hi, hj, Nat.ne_of_lt hlt, hab⟩

end Comparator

namespace SortKey

variable {schema : Schema} {c : Comparator} {cs : List Comparator}

theorem gives_of_comparator {key : SortKey} (h : key.comparator schema = .ok c) :
    Gives schema (Comparator.onInstances schema c) := by
  refine ⟨[key], [c], mapM_cons_eq_ok.2 ⟨c, [], h, rfl, rfl⟩, ?_⟩
  rw [Comparator.chain_singleton]

/-- Sort keys themselves fail on types only: those of the records or those of their values. -/
theorem category_of_chain {a b : Record} {failure : Failure} (hcs : ∀ c ∈ cs, Gives schema c)
    (h : Comparator.chain cs a b = .error failure) :
    failure.category = .mapping ∨ failure.category = .typeMismatch := by
  obtain ⟨c, hc, hab⟩ := Comparator.error_of_chain h
  obtain ⟨keys, ds, hds, rfl⟩ := hcs c hc
  unfold Comparator.onInstances at hab
  split at hab
  · obtain ⟨d, hd, hab⟩ := Comparator.error_of_chain hab
    obtain ⟨key, -, hkey⟩ := exists_of_mem_comparators hds hd
    obtain ⟨accessor, -, hfails⟩ := error_of_comparator hkey hab
    exact .inr (Value.category_of_compare hfails)
  · cases hab
    exact .inl rfl

end SortKey

/-- **Sorting by keys is a stable sort, fails on two of the records, or panics.**  Records of any
types are sorted by comparators of sort keys.  That comes to no result exactly where the comparators
fail on two records at different places, and what is returned is the failure of two such records,
unless the sort panics; and that is where the answers that it gets after the first failure lead it
to a panic, which only more than twenty records can.  Otherwise the records are put in order, and
those that the comparators do not tell apart stand as they stood before. -/
theorem sorts_fails_or_panics {schema : Schema} {cs : List Comparator} {rs : List Record}
    (hcs : ∀ c ∈ cs, SortKey.Gives schema c) :
    ((∃ failure, sortRecords cs rs = .error failure) ↔
      ∃ failure, (Comparator.chain cs).FailsOn rs failure) ∧
    (∀ failure, sortRecords cs rs = .error failure → ¬ SortPanics (Comparator.chain cs) rs →
      (Comparator.chain cs).FailsOn rs failure) ∧
    (sortRecords cs rs = .error .inconsistentOrder ↔ SortPanics (Comparator.chain cs) rs) ∧
    (SortPanics (Comparator.chain cs) rs → 20 < rs.length) ∧
    ∀ sorted, sortRecords cs rs = .ok sorted → StablySorted (Comparator.chain cs) rs sorted := by
  have hc := SortKey.lawful_chain hcs
  refine ⟨?_, ?_, ⟨?_, sortRecords_of_panics hc⟩, SortPanics.lt_length,
    fun _ => stablySorted_sortRecords hc⟩
  · rw [Comparator.exists_failsOn_iff hc.coherent, ← exists_sortRecords_iff hc]
    cases sortRecords cs rs with
    | error failure => simp
    | ok sorted => simp
  · intro failure h hsteady
    exact (failsOn_or_panics hc h).resolve_right fun hpanics => hsteady hpanics.2.1
  · intro h
    rcases failsOn_or_panics hc h with ⟨_, _, _, _, _, hab⟩ | ⟨-, hpanics, -⟩
    · rcases SortKey.category_of_chain hcs hab with hcategory | hcategory <;> cases hcategory
    · exact hpanics

/-- Three books, one of them without an edition, by edition and then from the last to the first; and
two books, of which one has a text for its edition and so cannot be compared with the other. -/
theorem sorts_fails_or_panics_editions :
    let isbn : Accessor := ⟨"isbn", "Book", "Book", fun r => .integer (.ofNat r.id)⟩
    let edition : Accessor := ⟨"edition", "Book", "Book", fun r =>
      if r.id = 0 then .null else if r.id = 4 then .text "draft" else .integer 1⟩
    let schema : Schema := ⟨"Book", "Book", isbn, [edition]⟩
    let cs := [Comparator.onInstances schema edition.ascending,
      Comparator.onInstances schema isbn.descending]
    StablySorted (Comparator.chain cs) [⟨0, "Book"⟩, ⟨1, "Book"⟩, ⟨2, "Book"⟩]
        [⟨2, "Book"⟩, ⟨1, "Book"⟩, ⟨0, "Book"⟩] ∧
      (∃ failure, sortRecords cs [⟨0, "Book"⟩, ⟨1, "Book"⟩, ⟨4, "Book"⟩] = .error failure) := by
  intro isbn edition schema cs
  have hedition : (⟨"edition", .asc⟩ : SortKey).comparator schema = .ok edition.ascending := rfl
  have hisbn : (⟨"isbn", .desc⟩ : SortKey).comparator schema = .ok isbn.descending := rfl
  have hcs : ∀ c ∈ cs, SortKey.Gives schema c := by
    refine List.forall_mem_cons.2 ⟨SortKey.gives_of_comparator hedition, ?_⟩
    exact List.forall_mem_singleton.2 (SortKey.gives_of_comparator hisbn)
  refine ⟨(sorts_fails_or_panics hcs).2.2.2.2 _ rfl, (sorts_fails_or_panics hcs).1.2 ?_⟩
  exact ⟨_, 1, 2, by decide, by decide, by decide, rfl⟩

/-- Eleven numbers, ten texts and a book without an edition, by edition from the last to the first:
the failure at the first text is lost in a panic. -/
theorem mixed_editions_panic :
    let isbn : Accessor := ⟨"isbn", "Book", "Book", fun r => .integer (.ofNat r.id)⟩
    let edition : Accessor := ⟨"edition", "Book", "Book", fun r =>
      if r.id = 0 then .integer 20 else if r.id = 1 then .integer 10
      else if r.id < 11 then .integer (.ofNat (10 * r.id + 10))
      else if r.id < 21 then .text "draft" else .null⟩
    let schema : Schema := ⟨"Book", "Book", isbn, [edition]⟩
    let rs : List Record := (List.range 22).map fun id => ⟨id, "Book"⟩
    ∃ cs, SortKey.recordComparators schema [⟨"edition", .desc⟩] = .ok cs ∧
      sortRecords cs rs = .error .inconsistentOrder ∧
      ∃ failure, (Comparator.chain cs).FailsOn rs failure ∧ failure.category = .typeMismatch := by
  refine ⟨[Comparator.onInstances _ (Comparator.chain [Accessor.descending _])], rfl, rfl, ?_⟩
  exact ⟨_, ⟨0, 11, by decide, by decide, by decide, rfl⟩, rfl⟩

end EntityStore
