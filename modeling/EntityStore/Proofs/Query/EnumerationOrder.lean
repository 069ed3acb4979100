import EntityStore.Condition.Binding
import EntityStore.Proofs.Sorting.Comparable
import EntityStore.Proofs.Storage.Removal

/-!
# The order of the entries

The entries of a store stand in an order that means nothing.  Two stores with the same entries in
different orders decide a filter, a removal and a sorting alike, hold the same records in their
selections, and give the same windows where no two records that match are tied.

    s.contents.entries.Perm t.contents.entries →
      ((∃ n s', removeWhere f s = (.ok n, s')) ↔ ∃ n t', removeWhere f t = (.ok n, t')) ∧
      ((∃ out, s.select f cs skip limit = .ok out) ↔ ∃ out, t.select f cs skip limit = .ok out) ∧ …
                                                                          (same_outcome_of_perm)
-/

namespace EntityStore

/-! ## Containers -/

namespace Container

variable {c d : Container}

theorem perm_without (h : c.entries.Perm d.entries) (f : Filter) :
    (c.without f).entries.Perm (d.without f).entries :=
  h.filter _

end Container

namespace Filter

/-- Among some records a filter selects the same ones in any order, and decides them all in any
order or in none. -/
theorem select_of_perm {f : Filter} {rs rs' found : List Record} (h : rs.Perm rs')
    (hfound : f.select rs = .ok found) :
    ∃ found', f.select rs' = .ok found' ∧ found.Perm found' := by
  obtain ⟨hdecided, rfl⟩ := select_eq_ok_iff.1 hfound
  refine ⟨rs'.filter f.accepts, select_eq_ok_iff.2 ⟨?_, rfl⟩, h.filter _⟩
  intro r hr
  exact hdecided r (h.mem_iff.2 hr)

end Filter

namespace Store

section
variable {s t : Store} (hst : s.contents.entries.Perm t.contents.entries)
include hst

theorem perm_records : s.records.Perm t.records := hst.map _

/-! ## Removing -/

theorem removeWhere_of_perm {f : Filter} {n : Nat} {s' : Store}
    (h : removeWhere f s = (.ok n, s')) : ∃ t', removeWhere f t = (.ok n, t') ∧
      s'.contents.entries.Perm t'.contents.entries := by
  obtain ⟨hdecided, rfl, rfl⟩ := removeWhere_eq_ok_iff.1 h
  refine ⟨_, removeWhere_eq_ok_iff.2 ⟨?_, ?_, rfl⟩, Container.perm_without hst f⟩
  · intro r hr
    exact hdecided r ((perm_records hst).mem_iff.2 hr)
  · exact ((perm_records hst).filter _).length_eq

/-! ## Selecting -/

section
variable {f : Filter} {cs : List Comparator} (hcs : (Comparator.chain cs).Lawful)
include hcs

/-- What can be sorted in one order of the entries can be sorted in the other. -/
theorem select_of_perm {skip limit : Nat} {out : List Record}
    (h : s.select f cs skip limit = .ok out) : ∃ sorted sorted',
      StablySorted (Comparator.chain cs) (s.records.filter f.accepts) sorted ∧
      StablySorted (Comparator.chain cs) (t.records.filter f.accepts) sorted' ∧
      out = window skip limit sorted ∧
      ∀ skip limit, t.select f cs skip limit = .ok (window skip limit sorted') := by
  obtain ⟨found, sorted, hfound, hsorted, rfl⟩ := select_eq_ok_iff.1 h
  obtain ⟨found', hfound', hperm⟩ := Filter.select_of_perm (perm_records hst) hfound
  have hcomparable := (exists_sortRecords_iff hcs).1 ⟨sorted, hsorted⟩
  obtain ⟨sorted', hsorted'⟩ := (exists_sortRecords_iff hcs).2
    (hcomparable.perm hperm (Comparator.Comparable.symm hcs.coherent))
  rw [← (Filter.select_eq_ok_iff.1 hfound).2, ← (Filter.select_eq_ok_iff.1 hfound').2]
  refine ⟨sorted, sorted', stablySorted_sortRecords hcs hsorted,
    stablySorted_sortRecords hcs hsorted', rfl, ?_⟩
  intro skip limit
  exact select_eq_ok_iff.2 ⟨found', sorted', hfound', hsorted', rfl⟩

theorem exists_select_of_perm {skip limit : Nat} (h : ∃ out, s.select f cs skip limit = .ok out) :
    ∃ out, t.select f cs skip limit = .ok out := by
  obtain ⟨out, hout⟩ := h
  obtain ⟨_, sorted', -, -, -, hselect⟩ := select_of_perm hst hcs hout
  exact ⟨_, hselect skip limit⟩

/-- Without a window the selections hold the same records. -/
theorem perm_select_of_perm {out out' : List Record} (h : s.select f cs 0 0 = .ok out)
    (h' : t.select f cs 0 0 = .ok out') : out.Perm out' := by
  obtain ⟨sorted, sorted', hsorted, hsorted', rfl, hselect⟩ := select_of_perm hst hcs h
  rw [hselect 0 0] at h'
  cases h'
  have hfound : (s.records.filter f.accepts).Perm (t.records.filter f.accepts) :=
    (perm_records hst).filter _
  exact hsorted.perm.trans (hfound.trans hsorted'.perm.symm)

/-- Where no two records are tied the selections are the same, whatever their window. -/
theorem select_eq_of_perm {skip limit : Nat} {out : List Record}
    (hties : (s.records.filter f.accepts).Pairwise fun a b =>
      (Comparator.chain cs).ties a b = false)
    (h : s.select f cs skip limit = .ok out) : t.select f cs skip limit = .ok out := by
  obtain ⟨sorted, sorted', hsorted, hsorted', rfl, hselect⟩ := select_of_perm hst hcs h
  rw [hselect skip limit,
    hsorted.eq_of_perm hcs.coherent hsorted' ((perm_records hst).filter _) hties]

end

end

/-- Entries of different keys hold records that differ in some sort key, so no two of the records
that match are tied. -/
theorem pairwise_not_ties {schema : Schema} {f : Filter} {keys : List SortKey}
    {cs : List Comparator} {s : Store} (hcs : SortKey.recordComparators schema keys = .ok cs)
    (hf : ∀ r, f.accepts r = true → schema.isInstance r = true)
    (h : ∀ k k' r r', k ≠ k' → s.contents.get? k = some r → s.contents.get? k' = some r' →
      f.accepts r = true → f.accepts r' = true → ¬ SortKey.Ties schema keys r r') :
    (s.records.filter f.accepts).Pairwise fun a b => (Comparator.chain cs).ties a b = false := by
  have hkeys : s.contents.entries.Pairwise fun e e' => e.1 ≠ e'.1 :=
    List.pairwise_map.1 s.contents.nodup
  rw [List.pairwise_filter, records, Container.records, List.pairwise_map]
  refine hkeys.imp_of_mem ?_
  intro e e' he he' hne hr hr'
  rw [← Bool.not_eq_true, SortKey.ties_recordComparators_iff hcs (hf _ hr) (hf _ hr')]
  exact h e.1 e'.1 e.2 e'.2 hne (Container.get?_eq_some_iff.2 he) (Container.get?_eq_some_iff.2 he')
    hr hr'

end Store

/-! ## Top theorem -/

/-- **The order of the entries does not matter.**  Of two stores with the same entries, a removal by
a bound condition goes through on both or on neither, and then drops the same keys and tells the
same number.  A selection goes through on both or on neither; whole selections hold the same
records, and all windows are equal where no two of the matching records are tied on all sort keys.
-/
theorem same_outcome_of_perm {schema : Schema} {c : Condition} {args : List Value} {f : Filter}
    {keys : List SortKey} {cs : List Comparator} {s t : Store}
    (hf : c.recordFilter schema args = .ok f)
    (hcs : SortKey.recordComparators schema keys = .ok cs)
    (hst : s.contents.entries.Perm t.contents.entries) :
    ((∃ n s', Store.removeWhere f s = (.ok n, s')) ↔
      ∃ n t', Store.removeWhere f t = (.ok n, t')) ∧
    (∀ n m s' t', Store.removeWhere f s = (.ok n, s') → Store.removeWhere f t = (.ok m, t') →
      n = m ∧ (∀ k, (k ∈ s.contents.keys ∧ k ∉ s'.contents.keys) ↔
        (k ∈ t.contents.keys ∧ k ∉ t'.contents.keys)) ∧
      s'.contents.entries.Perm t'.contents.entries) ∧
    (∀ skip limit, (∃ out, s.select f cs skip limit = .ok out) ↔
      ∃ out, t.select f cs skip limit = .ok out) ∧
    (∀ out out', s.select f cs 0 0 = .ok out → t.select f cs 0 0 = .ok out' → out.Perm out') ∧
    ((∀ k k' r r', k ≠ k' → s.contents.get? k = some r → s.contents.get? k' = some r' →
        f r = .ok true → f r' = .ok true → ¬ SortKey.Ties schema keys r r') →
      ∀ skip limit out, s.select f cs skip limit = .ok out ↔
        t.select f cs skip limit = .ok out) := by
  have hlawful := SortKey.lawful_recordComparators hcs
  have hinst : ∀ r, f.accepts r = true → schema.isInstance r = true := by
    intro r hr
    obtain ⟨bound, -, rfl⟩ := map_eq_ok.1 hf
    rw [Filter.accepts_onInstances, Bool.and_eq_true] at hr
    exact hr.1
  refine ⟨⟨?_, ?_⟩, ?_, fun skip limit => ⟨?_, ?_⟩, ?_, ?_⟩
  · rintro ⟨n, s', h⟩
    obtain ⟨t', ht', -⟩ := Store.removeWhere_of_perm hst h
    exact ⟨n, t', ht'⟩
  · rintro ⟨n, t', h⟩
    obtain ⟨s', hs', -⟩ := Store.removeWhere_of_perm hst.symm h
    exact ⟨n, s', hs'⟩
  · intro n m s' t' hs' ht'
    obtain ⟨t'', ht'', hperm⟩ := Store.removeWhere_of_perm hst hs'
    rw [ht''] at ht'
    cases ht'
    refine ⟨rfl, fun k => ?_, hperm⟩
    have hbefore : k ∈ s.contents.keys ↔ k ∈ t.contents.keys := (hst.map (·.1)).mem_iff
    have hafter : k ∈ s'.contents.keys ↔ k ∈ t'.contents.keys := (hperm.map (·.1)).mem_iff
    rw [hbefore, hafter]
  · exact Store.exists_select_of_perm hst hlawful
  · exact Store.exists_select_of_perm hst.symm hlawful
  · intro out out' h h'
    exact Store.perm_select_of_perm hst hlawful h h'
  · intro hties skip limit out
    have hs := Store.pairwise_not_ties hcs hinst fun k k' r r' hne hr hr' haccepts haccepts' =>
      hties k k' r r' hne hr hr' (Filter.accepts_iff.1 haccepts) (Filter.accepts_iff.1 haccepts')
    have ht : (t.records.filter f.accepts).Pairwise fun a b =>
        (Comparator.chain cs).ties a b = false := by
      refine hs.perm ((Store.perm_records hst).filter _) ?_
      intro a b hab
      rw [← Bool.not_eq_true] at hab ⊢
      exact fun hba => hab (Comparator.ties_symm hlawful.coherent hba)
    exact ⟨Store.select_eq_of_perm hst hlawful hs,
      Store.select_eq_of_perm hst.symm hlawful ht⟩

/-- Two books of one edition and a note, in two orders: the second page of size one is the same. -/
theorem same_outcome_of_perm_second_page :
    let read (name : String) (read : Record → Value) : Accessor := ⟨name, "Book", "Book", read⟩
    let schema : Schema := ⟨"Book", "Book", read "isbn" fun r => .integer (.ofNat r.id),
      [read "edition" fun r => .integer (.ofNat (r.id % 2))]⟩
    let condition := Condition.comparison "edition" .gte .parameter
    let s := Store.hydrate (.ofEntries [(.integer 1, ⟨1, "Book"⟩), (.text "draft", ⟨3, "Note"⟩),
      (.integer 5, ⟨5, "Book"⟩)]) {}
    let t := Store.hydrate (.ofEntries [(.integer 5, ⟨5, "Book"⟩), (.integer 1, ⟨1, "Book"⟩),
      (.text "draft", ⟨3, "Note"⟩)]) {}
    ∃ f cs, condition.recordFilter schema [.integer 1] = .ok f ∧
      SortKey.recordComparators schema [⟨"isbn", .desc⟩] = .ok cs ∧
      s.select f cs 1 1 = .ok [⟨1, "Book"⟩] ∧ t.select f cs 1 1 = .ok [⟨1, "Book"⟩] := by
  intro read schema condition s t
  have hf : condition.recordFilter schema [.integer 1] = .ok _ := rfl
  have hcs : SortKey.recordComparators schema [⟨"isbn", .desc⟩] = .ok _ := rfl
  have hperm : s.contents.entries.Perm t.contents.entries := by decide
  refine ⟨_, _, hf, hcs, rfl, ?_⟩
  refine ((same_outcome_of_perm hf hcs hperm).2.2.2.2 ?_ 1 1 _).1 rfl
  intro k k' r r' hne hr hr' hmatch hmatch' hties
  obtain ⟨isbn, hisbn, heq⟩ := hties _ List.mem_cons_self
  cases hisbn
  rw [Container.get?_eq_some_iff] at hr hr'
  -- The note does not match, and the two books have different identifiers.
  rcases hr with _ | ⟨_, _ | ⟨_, _ | ⟨_, ⟨⟩⟩⟩⟩ <;> rcases hr' with _ | ⟨_, _ | ⟨_, _ | ⟨_, ⟨⟩⟩⟩⟩
  · exact hne rfl
  · cases hmatch'
  · revert heq; decide
  · cases hmatch
  · cases hmatch
  · cases hmatch
  · revert heq; decide
  · cases hmatch'
  · exact hne rfl

end EntityStore
