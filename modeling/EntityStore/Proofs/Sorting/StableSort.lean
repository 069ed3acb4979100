import EntityStore.Proofs.Sorting.Quicksort
import EntityStore.Proofs.Value.NaturalOrder

/-!
# Sorting records is a stable sort

Sorting either puts the records in the order of the comparators, stably, or meets two of them on
which the comparators fail.  Then what it goes on with decides whether that failure is returned or
lost in a panic.  The comparators must be lawful; those that sort keys give are, in a row as well as
alone.  Up to twenty records are sorted without panic.

    (Comparator.chain cs).Lawful → (∃ sorted, sortRecords cs rs = .ok sorted ∧
      StablySorted (Comparator.chain cs) rs sorted) ∨ ∃ failure rest, …       (sortRecords_cases)
    SortKey.recordComparators schema keys = .ok cs → (Comparator.chain cs).Lawful
                                                               (SortKey.lawful_recordComparators)
    SortKey.recordComparators schema keys = .ok cs → sortRecords cs rs = .ok sorted →
      ∃ ds, SortKey.comparators schema keys = .ok ds ∧
        StablySorted (Comparator.chain ds) rs sorted                        (stablySorted_of_keys)
-/

namespace EntityStore

/-! ## Comparators of sort keys -/

namespace Comparator

variable {schema : Schema} {c : Comparator} {cs : List Comparator} {a b : Record}

theorem onInstances_eq_ok {o : Ordering} : onInstances schema c a b = .ok o ↔
    schema.isInstance a = true ∧ schema.isInstance b = true ∧ c a b = .ok o := by
  unfold onInstances
  cases schema.isInstance a <;> cases schema.isInstance b <;> simp

theorem ties_onInstances (ha : schema.isInstance a = true) (hb : schema.isInstance b = true) :
    (onInstances schema c).ties a b = c.ties a b := by
  have hab : onInstances schema c a b = c a b := by rw [onInstances, ha, hb]; rfl
  rw [ties, ties, hab]

/-- Only instances are compared, so the order of the instances is all there is. -/
theorem coherent_onInstances (hc : Coherent c) : Coherent (onInstances schema c) where
  swap := by
    intro a b o h
    obtain ⟨ha, hb, hab⟩ := onInstances_eq_ok.1 h
    exact onInstances_eq_ok.2 ⟨hb, ha, hc.swap hab⟩
  trans := by
    intro a b d o o' hab hbd ho ho'
    obtain ⟨ha, -, hab⟩ := onInstances_eq_ok.1 hab
    obtain ⟨-, hd, hbd⟩ := onInstances_eq_ok.1 hbd
    exact onInstances_eq_ok.2 ⟨ha, hd, hc.trans hab hbd ho ho'⟩

theorem chain_singleton (c : Comparator) : chain [c] = c := by
  funext a b
  simp only [chain]
  split
  · next h => exact h.symm
  · rfl

/-- Coherence is kept by a row of comparators, the first of which is the main one. -/
theorem coherent_chain (h : ∀ c ∈ cs, Coherent c) : Coherent (chain cs) := by
  induction cs with
  | nil =>
    constructor
    · intro a b o h
      cases h
      rfl
    · intro a b c o o' hab hbc _ _
      cases hab
      cases hbc
      rfl
  | cons c cs ih =>
    have hcs : Coherent (chain cs) := ih fun d hd => h d (List.mem_cons_of_mem c hd)
    exact (h c List.mem_cons_self).breakTie hcs

theorem chain_self (h : ∀ c ∈ cs, c a a = .ok .eq) : chain cs a a = .ok .eq := by
  induction cs with
  | nil => rfl
  | cons c cs ih =>
    obtain ⟨hc, hcs⟩ := List.forall_mem_cons.1 h
    show breakTie (c a a) (chain cs a a) = .ok .eq
    rw [hc]
    exact ih hcs

end Comparator

namespace SortKey

variable {schema : Schema} {key : SortKey} {keys : List SortKey} {c : Comparator}
  {cs : List Comparator}

theorem coherent_comparator (h : key.comparator schema = .ok c) : Coherent c := by
  obtain ⟨accessor, -, rfl⟩ := map_eq_ok.1 h
  have hasc : Coherent accessor.ascending := Value.coherent_compare.comap accessor.read
  cases key.direction with
  | asc => exact hasc
  | desc => exact hasc.reverse

theorem comparator_self (h : key.comparator schema = .ok c) (a : Record) : c a a = .ok .eq := by
  obtain ⟨accessor, -, rfl⟩ := map_eq_ok.1 h
  have hasc : accessor.ascending a a = .ok .eq := Value.compare_self (accessor.read a)
  cases key.direction with
  | asc => exact hasc
  | desc => exact map_eq_ok.2 ⟨.eq, hasc, rfl⟩

theorem exists_of_mem_comparators (h : comparators schema keys = .ok cs) (hc : c ∈ cs) :
    ∃ key ∈ keys, key.comparator schema = .ok c := exists_of_mem_mapM h hc

theorem coherent_comparators (h : comparators schema keys = .ok cs) : ∀ c ∈ cs, Coherent c := by
  intro c hc
  obtain ⟨key, -, hkey⟩ := exists_of_mem_comparators h hc
  exact coherent_comparator hkey

/-- The comparator is that of a row of sort keys, for records of any type. -/
def Gives (schema : Schema) (c : Comparator) : Prop :=
  ∃ keys ds, comparators schema keys = .ok ds ∧
    c = Comparator.onInstances schema (Comparator.chain ds)

theorem Gives.coherent (h : Gives schema c) : Coherent c := by
  obtain ⟨keys, ds, hds, rfl⟩ := h
  exact Comparator.coherent_onInstances (Comparator.coherent_chain (coherent_comparators hds))

theorem Gives.isInstance (h : Gives schema c) {a b : Record} {o : Ordering} (hab : c a b = .ok o) :
    schema.isInstance a = true := by
  obtain ⟨keys, ds, hds, rfl⟩ := h
  exact (Comparator.onInstances_eq_ok.1 hab).1

theorem Gives.self (h : Gives schema c) {a : Record} (ha : schema.isInstance a = true) :
    c a a = .ok .eq := by
  obtain ⟨keys, ds, hds, rfl⟩ := h
  refine Comparator.onInstances_eq_ok.2 ⟨ha, ha, Comparator.chain_self fun d hd => ?_⟩
  obtain ⟨key, -, hkey⟩ := exists_of_mem_comparators hds hd
  exact comparator_self hkey a

theorem lawful_chain (h : ∀ c ∈ cs, Gives schema c) : (Comparator.chain cs).Lawful where
  coherent := Comparator.coherent_chain fun c hc => (h c hc).coherent
  self := by
    intro a b o hab
    cases cs with
    | nil => rfl
    | cons c cs =>
      -- What the first comparator compares are instances, and so the others do not fail on them.
      obtain ⟨p, hp⟩ : ∃ p, c a b = .ok p := by
        cases hab' : c a b with
        | ok p => exact ⟨p, rfl⟩
        | error failure =>
          rw [Comparator.chain, hab'] at hab
          cases hab
      have ha := (h c List.mem_cons_self).isInstance hp
      exact Comparator.chain_self fun d hd => (h d hd).self ha

theorem gives_of_recordComparators (h : recordComparators schema keys = .ok cs) :
    ∀ c ∈ cs, Gives schema c := by
  unfold recordComparators at h
  split at h
  · cases h
    exact List.forall_mem_nil _
  · obtain ⟨ds, hds, rfl⟩ := map_eq_ok.1 h
    exact List.forall_mem_singleton.2 ⟨keys, ds, hds, rfl⟩

theorem lawful_recordComparators (h : recordComparators schema keys = .ok cs) :
    (Comparator.chain cs).Lawful := lawful_chain (gives_of_recordComparators h)

end SortKey

/-! ## Sorting -/

section Sorting

variable {cs : List Comparator} {rs sorted : List Record}

/-- The sort meets a failure and panics on what it is told from then on. -/
def SortPanics (c : Comparator) (rs : List Record) : Prop :=
  ∃ failure rest, Asking.Stuck c failure rest (Sorting.sort rs) ∧ rest.denied = none

/-- The failure is returned, if there is an end after it. -/
theorem sortRecords_of_stuck (hc : (Comparator.chain cs).Lawful) {failure : Failure}
    {rest : Asking Record (List Record)}
    (h : Asking.Stuck (Comparator.chain cs) failure rest (Sorting.sort rs)) :
    sortRecords cs rs = .error (if rest.denied.isSome then failure else .inconsistentOrder) := by
  unfold sortRecords
  split
  · next hshort =>
    -- Of fewer than two records, and by no comparator, nothing is asked that fails.
    rw [Bool.or_eq_true, decide_eq_true_iff, List.isEmpty_iff] at hshort
    rcases (Sorting.ensures_sort hc (List.Subperm.refl rs)).run hc.coherent with
      ⟨sorted, hrun, -⟩ | ⟨failure', _, -, a, b, hpair, hab⟩
    · rw [h.run] at hrun
      cases congrArg Prod.snd hrun
    · rcases hshort with hshort | rfl
      · exact absurd hpair.length_le (Nat.not_le_of_gt hshort)
      · cases hab
  · rw [h.run]
    cases rest.denied <;> rfl

theorem sortRecords_cases (hc : (Comparator.chain cs).Lawful) :
    (∃ sorted, sortRecords cs rs = .ok sorted ∧ StablySorted (Comparator.chain cs) rs sorted) ∨
      ∃ failure rest, Asking.Stuck (Comparator.chain cs) failure rest (Sorting.sort rs) ∧
        ∃ a b, [a, b].Subperm rs ∧ Comparator.chain cs a b = .error failure := by
  rcases (Sorting.ensures_sort hc (List.Subperm.refl rs)).run hc.coherent with
    ⟨sorted, hrun, hsorted⟩ | hfails
  · left
    unfold sortRecords
    split
    · next hshort =>
      refine ⟨rs, rfl, ?_⟩
      rw [Bool.or_eq_true, decide_eq_true_iff, List.isEmpty_iff] at hshort
      rcases hshort with hshort | rfl
      · exact .of_length_le_one _ (by omega)
      · exact .of_pairwise (List.pairwise_of_forall fun a b => ⟨.eq, rfl, by decide⟩)
    · rw [hrun]
      exact ⟨sorted, rfl, hsorted⟩
  · exact .inr hfails

theorem stablySorted_sortRecords (hc : (Comparator.chain cs).Lawful)
    (h : sortRecords cs rs = .ok sorted) : StablySorted (Comparator.chain cs) rs sorted := by
  rcases sortRecords_cases hc with ⟨sorted', hsorted', hstable⟩ | ⟨failure, rest, hstuck, -⟩
  · rw [h] at hsorted'
    cases hsorted'
    exact hstable
  · rw [sortRecords_of_stuck hc hstuck] at h
    cases h

end Sorting

/-- Among instances, the comparator on instances sorts as the one that it is made from. -/
theorem StablySorted.of_onInstances {schema : Schema} {c : Comparator} {rs sorted : List Record}
    (hc : Coherent c) (hrs : ∀ r ∈ rs, schema.isInstance r = true)
    (h : StablySorted (Comparator.onInstances schema c) rs sorted) : StablySorted c rs sorted where
  perm := h.perm
  ordered := by
    apply h.ordered.imp
    rintro a b ⟨o, hab, ho⟩
    exact ⟨o, (Comparator.onInstances_eq_ok.1 hab).2.2, ho⟩
  stable := by
    intro r
    by_cases hr : ∃ x ∈ rs, c.ties r x = true
    · obtain ⟨x, hx, hrx⟩ := hr
      have hinst : ∀ y ∈ rs, (Comparator.onInstances schema c).ties x y = c.ties x y :=
        fun y hy => Comparator.ties_onInstances (hrs x hx) (hrs y hy)
      rw [Comparator.ties_eq_of_ties hc hrx]
      calc
        sorted.filter (c.ties x)
            = sorted.filter ((Comparator.onInstances schema c).ties x) :=
          List.filter_congr fun y hy => (hinst y (h.perm.subset hy)).symm
        _ = rs.filter ((Comparator.onInstances schema c).ties x) := h.stable x
        _ = rs.filter (c.ties x) := List.filter_congr hinst
    · -- Nothing is tied with `r`.
      have hnone : ∀ y ∈ rs, ¬ c.ties r y = true := fun y hy hry => hr ⟨y, hy, hry⟩
      rw [List.filter_eq_nil_iff.2 hnone,
        List.filter_eq_nil_iff.2 fun y hy => hnone y (h.perm.subset hy)]

/-! ## Instances of one type -/

theorem stablySorted_of_keys {schema : Schema} {keys : List SortKey} {cs : List Comparator}
    {rs sorted : List Record} (hrs : ∀ r ∈ rs, schema.isInstance r = true)
    (hcs : SortKey.recordComparators schema keys = .ok cs) (h : sortRecords cs rs = .ok sorted) :
    ∃ ds, SortKey.comparators schema keys = .ok ds ∧
      StablySorted (Comparator.chain ds) rs sorted := by
  have hsorted := stablySorted_sortRecords (SortKey.lawful_recordComparators hcs) h
  unfold SortKey.recordComparators at hcs
  split at hcs
  · next hkeys =>
    obtain rfl := List.isEmpty_iff.1 hkeys
    cases hcs
    exact ⟨[], rfl, hsorted⟩
  · obtain ⟨ds, hds, rfl⟩ := map_eq_ok.1 hcs
    rw [Comparator.chain_singleton] at hsorted
    have hcoherent := Comparator.coherent_chain (SortKey.coherent_comparators hds)
    exact ⟨ds, hds, hsorted.of_onInstances hcoherent hrs⟩

end EntityStore
