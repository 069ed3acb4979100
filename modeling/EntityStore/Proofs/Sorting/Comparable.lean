import EntityStore.Proofs.Sorting.StableSort
import Mathlib.Data.List.Pairwise

/-!
# Which records can be sorted

Sorting meets some pairs of records only, but coherence carries what it finds over to all others:
it succeeds exactly where every two records can be compared.  So success does not depend on the
order in which the records come in, and neither does the result where no two of them are tied.  A
failure is that of two of the records at different places, or a panic that came after it.

    (∃ sorted, sortRecords cs rs = .ok sorted) ↔
      rs.Pairwise (Comparator.chain cs).Comparable                         (exists_sortRecords_iff)
    sortRecords cs rs = .error failure → (Comparator.chain cs).FailsOn rs failure ∨
      failure = .inconsistentOrder ∧ SortPanics (Comparator.chain cs) rs ∧ …   (failsOn_or_panics)
    SortPanics c rs → Sorting.insertionLimit < rs.length                  (SortPanics.lt_length)
    StablySorted c rs sorted → StablySorted c rs' sorted' → rs.Perm rs' →
      rs.Pairwise (fun a b => c.ties a b = false) → sorted = sorted'      (StablySorted.eq_of_perm)
-/

namespace EntityStore

namespace Comparator

/-! ## Failure -/

theorem error_of_chain {cs : List Comparator} {a b : Record} {failure : Failure}
    (h : chain cs a b = .error failure) : ∃ c ∈ cs, c a b = .error failure := by
  induction cs with
  | nil => cases h
  | cons c cs ih =>
    replace h : breakTie (c a b) (chain cs a b) = .error failure := h
    rcases error_of_breakTie h with h | h
    · exact ⟨c, List.mem_cons_self, h⟩
    · obtain ⟨d, hd, hab⟩ := ih h
      exact ⟨d, List.mem_cons_of_mem c hd, hab⟩

/-- The comparator fails on two of the records, which stand at different places. -/
def FailsOn (c : Comparator) (rs : List Record) (failure : Failure) : Prop :=
  ∃ i j, ∃ (hi : i < rs.length) (hj : j < rs.length), i ≠ j ∧ c rs[i] rs[j] = .error failure

theorem failsOn_of_subperm {c : Comparator} {rs : List Record} {a b : Record} {failure : Failure}
    (h : [a, b].Subperm rs) (hab : c a b = .error failure) : c.FailsOn rs failure := by
  by_contra hnot
  have hnone : rs.Pairwise fun x y => c x y ≠ .error failure ∧ c y x ≠ .error failure := by
    rw [List.pairwise_iff_getElem]
    intro i j hi hj hlt
    exact ⟨fun hij => hnot ⟨i, j, hi, hj, Nat.ne_of_lt hlt, hij⟩,
      fun hji => hnot ⟨j, i, hj, hi, Nat.ne_of_gt hlt, hji⟩⟩
  obtain ⟨pair, hpair, hsub⟩ := h
  have hboth := (hnone.sublist hsub).perm hpair And.symm
  exact (List.pairwise_pair.1 hboth).1 hab

theorem FailsOn.exists_mem {c : Comparator} {rs : List Record} {failure : Failure}
    (h : c.FailsOn rs failure) : ∃ a ∈ rs, ∃ b ∈ rs, c a b = .error failure := by
  obtain ⟨i, j, hi, hj, -, hab⟩ := h
  exact ⟨rs[i], List.getElem_mem hi, rs[j], List.getElem_mem hj, hab⟩

end Comparator

section Sorting

variable {cs : List Comparator} {rs : List Record} {failure : Failure}
  (hc : (Comparator.chain cs).Lawful)
include hc

/-- What sorting fails with is the failure of two of the records, unless it panics. -/
theorem failsOn_or_panics (h : sortRecords cs rs = .error failure) :
    (Comparator.chain cs).FailsOn rs failure ∨
      failure = .inconsistentOrder ∧ SortPanics (Comparator.chain cs) rs ∧
        ∃ failure', (Comparator.chain cs).FailsOn rs failure' := by
  rcases sortRecords_cases hc with ⟨sorted, hsorted, -⟩ | ⟨failure', rest, hstuck, a, b, hpair, hab⟩
  · rw [h] at hsorted
    cases hsorted
  · have hfails := Comparator.failsOn_of_subperm hpair hab
    rw [sortRecords_of_stuck hc hstuck] at h
    cases hdenied : rest.denied with
    | some out =>
      rw [hdenied] at h
      cases h
      exact .inl hfails
    | none =>
      rw [hdenied] at h
      cases h
      exact .inr ⟨rfl, ⟨failure', rest, hstuck, hdenied⟩, failure', hfails⟩

theorem sortRecords_of_panics (h : SortPanics (Comparator.chain cs) rs) :
    sortRecords cs rs = .error .inconsistentOrder := by
  obtain ⟨failure, rest, hstuck, hdenied⟩ := h
  rw [sortRecords_of_stuck hc hstuck, hdenied]
  rfl

/-! ## Success -/

theorem exists_sortRecords_iff :
    (∃ sorted, sortRecords cs rs = .ok sorted) ↔
      rs.Pairwise (Comparator.chain cs).Comparable := by
  constructor
  · rintro ⟨sorted, h⟩
    have hsorted := stablySorted_sortRecords hc h
    exact (hsorted.ordered.imp Comparator.InOrder.comparable).perm hsorted.perm
      (Comparator.Comparable.symm hc.coherent)
  · intro h
    rcases sortRecords_cases hc with ⟨sorted, hsorted, -⟩ | ⟨failure, _, -, a, b, hpair, hab⟩
    · exact ⟨sorted, hsorted⟩
    · -- Two of the records would not be comparable.
      obtain ⟨pair, hperm, hsub⟩ := hpair
      have hboth := (h.sublist hsub).perm hperm (Comparator.Comparable.symm hc.coherent)
      obtain ⟨o, ho⟩ := List.pairwise_pair.1 hboth
      rw [hab] at ho
      cases ho

end Sorting

/-- Up to twenty records are inserted one by one, which never panics. -/
theorem SortPanics.lt_length {c : Comparator} {rs : List Record} (h : SortPanics c rs) :
    Sorting.insertionLimit < rs.length := by
  by_contra hle
  obtain ⟨failure, rest, hstuck, hdenied⟩ := h
  rw [Sorting.sort, if_pos (Nat.le_of_not_lt hle)] at hstuck
  obtain ⟨out, hout⟩ := (hstuck.steady (Sorting.steady_insertionSort rs)).exists_denied
  rw [hdenied] at hout
  cases hout

/-! ## The result -/

/-- Where no two records are tied there is one way to sort them. -/
theorem StablySorted.eq_of_perm {c : Comparator} {rs rs' sorted sorted' : List Record}
    (hc : Coherent c) (h : StablySorted c rs sorted) (h' : StablySorted c rs' sorted')
    (hperm : rs.Perm rs') (hties : rs.Pairwise fun a b => c.ties a b = false) :
    sorted = sorted' := by
  refine List.Perm.eq_of_pairwise ?_ h.ordered h'.ordered
    (h.perm.trans (hperm.trans h'.perm.symm))
  rintro a b ha hb ⟨o, hab, ho⟩ ⟨o', hba, ho'⟩
  by_contra hne
  -- In order both ways, the two are tied, and they are two of the records.
  have hflip : o = o'.swap := Except.ok.inj (hab.symm.trans (hc.swap hba))
  obtain rfl : o = .eq := by
    cases o with
    | lt =>
      obtain rfl : o' = .gt := Ordering.swap_inj.1 hflip.symm
      exact absurd rfl ho'
    | eq => rfl
    | gt => exact absurd rfl ho
  have : Std.Symm fun a b => c.ties a b = false := by
    constructor
    intro x y hxy
    rw [← Bool.not_eq_true] at hxy ⊢
    exact fun hyx => hxy (Comparator.ties_symm hc hyx)
  have hnot := hties.forall (h.perm.subset ha) ((h'.perm.trans hperm.symm).subset hb) hne
  rw [Comparator.ties_iff.2 hab] at hnot
  cases hnot

/-! ## Sort keys -/

namespace SortKey

variable {schema : Schema} {keys : List SortKey} {cs : List Comparator} {a b : Record}

/-- Two records have the same value in the attribute of every key. -/
def Ties (schema : Schema) (keys : List SortKey) (a b : Record) : Prop :=
  ∀ key ∈ keys, ∃ accessor, schema.resolve key.property = .ok accessor ∧
    (accessor.read a).compare (accessor.read b) = .ok .eq

theorem comparator_eq_ok_eq_iff {key : SortKey} {c : Comparator}
    (h : key.comparator schema = .ok c) :
    c a b = .ok .eq ↔ ∃ accessor, schema.resolve key.property = .ok accessor ∧
      (accessor.read a).compare (accessor.read b) = .ok .eq := by
  obtain ⟨accessor, haccessor, rfl⟩ := map_eq_ok.1 h
  have hread : (∃ accessor', schema.resolve key.property = .ok accessor' ∧
      (accessor'.read a).compare (accessor'.read b) = .ok .eq) ↔
      accessor.ascending a b = .ok .eq := by
    rw [haccessor]
    constructor
    · rintro ⟨_, h, hab⟩
      cases h
      exact hab
    · intro hab
      exact ⟨accessor, rfl, hab⟩
  rw [hread]
  cases key.direction with
  | asc => rfl
  | desc =>
    show (accessor.ascending a b).map Ordering.swap = .ok .eq ↔ _
    rw [map_eq_ok]
    constructor
    · rintro ⟨o, ho, hswap⟩
      rw [ho]
      cases o <;> cases hswap
      rfl
    · intro hab
      exact ⟨.eq, hab, rfl⟩

theorem error_of_comparator {key : SortKey} {c : Comparator} {failure : Failure}
    (h : key.comparator schema = .ok c) (hab : c a b = .error failure) :
    ∃ accessor, schema.resolve key.property = .ok accessor ∧
      (accessor.read a).compare (accessor.read b) = .error failure := by
  obtain ⟨accessor, haccessor, rfl⟩ := map_eq_ok.1 h
  refine ⟨accessor, haccessor, ?_⟩
  cases hdirection : key.direction with
  | asc =>
    rw [hdirection] at hab
    exact hab
  | desc =>
    rw [hdirection] at hab
    exact map_eq_error.1 hab

/-- Among instances, sort keys only fail where the values in the attribute of one of them do. -/
theorem error_of_recordComparators {failure : Failure} (h : recordComparators schema keys = .ok cs)
    (ha : schema.isInstance a = true) (hb : schema.isInstance b = true)
    (hab : Comparator.chain cs a b = .error failure) :
    ∃ key ∈ keys, ∃ accessor, schema.resolve key.property = .ok accessor ∧
      (accessor.read a).compare (accessor.read b) = .error failure := by
  unfold recordComparators at h
  split at h
  · cases h
    cases hab
  · obtain ⟨ds, hds, rfl⟩ := map_eq_ok.1 h
    rw [Comparator.chain_singleton, Comparator.onInstances, ha, hb] at hab
    obtain ⟨c, hc, hab⟩ := Comparator.error_of_chain hab
    obtain ⟨key, hkey, hc⟩ := exists_of_mem_comparators hds hc
    exact ⟨key, hkey, error_of_comparator hc hab⟩

theorem ties_comparators_iff (h : comparators schema keys = .ok cs) :
    (Comparator.chain cs).ties a b = true ↔ Ties schema keys a b := by
  rw [Comparator.ties_iff]
  unfold comparators at h
  induction keys generalizing cs with
  | nil =>
    cases h
    exact iff_of_true rfl (List.forall_mem_nil _)
  | cons key keys ih =>
    obtain ⟨c, ds, hc, hds, rfl⟩ := mapM_cons_eq_ok.1 h
    show breakTie (c a b) (Comparator.chain ds a b) = .ok .eq ↔ _
    rw [breakTie_eq_ok_iff, Ties, List.forall_mem_cons, comparator_eq_ok_eq_iff hc, ih hds]
    simp [Ties]

theorem ties_recordComparators_iff (h : recordComparators schema keys = .ok cs)
    (ha : schema.isInstance a = true) (hb : schema.isInstance b = true) :
    (Comparator.chain cs).ties a b = true ↔ Ties schema keys a b := by
  unfold recordComparators at h
  split at h
  · next hkeys =>
    obtain rfl := List.isEmpty_iff.1 hkeys
    cases h
    exact iff_of_true rfl (List.forall_mem_nil _)
  · obtain ⟨ds, hds, rfl⟩ := map_eq_ok.1 h
    rw [Comparator.chain_singleton, Comparator.ties_onInstances ha hb]
    exact ties_comparators_iff hds

end SortKey

end EntityStore
