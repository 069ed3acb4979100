import EntityStore.Proofs.Value.Comparison
import EntityStore.Sorting.SortKey
import Mathlib.Data.List.Perm.Subperm

/-!
# Stable rearrangements

To sort records stably is to rearrange them so that tied ones keep their order, until all are in
order.  Rearrangements are built from small ones: two blocks may change places where all of the
second come before all of the first.

    (∀ x ∈ xs, ∀ y ∈ ys, c.Before y x) → Rearranged c (xs ++ ys) (ys ++ xs)            (exchange)
    Rearranged c rs rs' → StablySorted c rs' sorted → StablySorted c rs sorted
                                                                     (Rearranged.stablySorted)
    StablySorted c xs xs' → StablySorted c ys ys' → (∀ x ∈ xs, ∀ y ∈ ys, c.InOrder x y) →
      StablySorted c (xs ++ ys) (xs' ++ ys')                                 (StablySorted.append)
-/

namespace EntityStore

namespace Comparator

/-- The comparator does not want the two records the other way round. -/
def InOrder (c : Comparator) (a b : Record) : Prop :=
  ∃ o, c a b = .ok o ∧ o ≠ .gt

def Before (c : Comparator) (a b : Record) : Prop := c a b = .ok .lt

/-- The comparator finds no difference. -/
def ties (c : Comparator) (a b : Record) : Bool :=
  match c a b with
  | .ok .eq => true
  | _ => false

/-- The comparator is coherent, and a record that can be compared at all is tied with itself. -/
structure Lawful (c : Comparator) : Prop where
  coherent : Coherent c
  self : ∀ {a b : Record} {o : Ordering}, c a b = .ok o → c a a = .ok .eq

variable {c : Comparator} {a b d : Record}

theorem ties_iff : c.ties a b = true ↔ c a b = .ok .eq := by
  unfold ties
  split
  · next h => simp [h]
  · next hne =>
    constructor
    · intro h
      cases h
    · intro h
      exact absurd h hne

theorem Before.inOrder (h : c.Before a b) : c.InOrder a b := ⟨.lt, h, by decide⟩

section Coherence

variable (hc : Coherent c)
include hc

theorem InOrder.trans (hab : c.InOrder a b) (hbd : c.InOrder b d) : c.InOrder a d := by
  obtain ⟨o, hab, ho⟩ := hab
  obtain ⟨o', hbd, ho'⟩ := hbd
  refine ⟨o.then o', hc.trans hab hbd ho ho', ?_⟩
  cases o
  · exact Ordering.noConfusion
  · exact ho'
  · exact absurd rfl ho

theorem Before.trans_inOrder (hab : c.Before a b) (hbd : c.InOrder b d) : c.Before a d := by
  obtain ⟨o, hbd, ho⟩ := hbd
  exact hc.trans hab hbd (by decide) ho

theorem InOrder.trans_before (hab : c.InOrder a b) (hbd : c.Before b d) : c.Before a d := by
  obtain ⟨o, hab, ho⟩ := hab
  have had := hc.trans hab hbd ho (by decide)
  cases o
  · exact had
  · exact had
  · exact absurd rfl ho

theorem Before.not_inOrder (hab : c.Before a b) : ¬ c.InOrder b a := by
  rintro ⟨o, hba, ho⟩
  have hgt : o = .gt := Except.ok.inj (hba.symm.trans (hc.swap hab))
  exact ho hgt

theorem ties_trans (hab : c.ties a b = true) (hbd : c.ties b d = true) : c.ties a d = true := by
  rw [ties_iff] at hab hbd ⊢
  exact hc.trans hab hbd (by decide) (by decide)

theorem ties_symm (hab : c.ties a b = true) : c.ties b a = true := by
  rw [ties_iff] at hab ⊢
  exact hc.swap hab

/-- Tied records are tied with the same records. -/
theorem ties_eq_of_ties (hab : c.ties a b = true) : c.ties a = c.ties b := by
  funext d
  rw [Bool.eq_iff_iff]
  constructor
  · intro had
    exact ties_trans hc (ties_symm hc hab) had
  · intro hbd
    exact ties_trans hc hab hbd

/-- Of two records that are told apart only one is tied with a third. -/
theorem Before.not_both_ties (hab : c.Before a b) :
    ¬ (c.ties d a = true ∧ c.ties d b = true) := by
  rintro ⟨ha, hb⟩
  have htie := ties_iff.1 (ties_trans hc (ties_symm hc ha) hb)
  rw [Before, htie] at hab
  cases hab

end Coherence

end Comparator

/-! ## Rearranging -/

/-- The same records, tied ones in the order they came in. -/
structure Rearranged (c : Comparator) (rs out : List Record) : Prop where
  perm : out.Perm rs
  stable : ∀ r, out.filter (c.ties r) = rs.filter (c.ties r)

/-- The same records in the order of the comparator, tied ones in the order they came in. -/
structure StablySorted (c : Comparator) (rs sorted : List Record) : Prop where
  perm : sorted.Perm rs
  ordered : sorted.Pairwise c.InOrder
  stable : ∀ r, sorted.filter (c.ties r) = rs.filter (c.ties r)

theorem pairwise_concat {α : Type} {R : α → α → Prop} {xs : List α} {x : α} :
    (xs ++ [x]).Pairwise R ↔ xs.Pairwise R ∧ ∀ y ∈ xs, R y x := by
  simp [List.pairwise_append]

variable {c : Comparator} {rs rs' rs'' xs xs' ys ys' sorted : List Record}

namespace Rearranged

theorem refl (c : Comparator) (rs : List Record) : Rearranged c rs rs :=
  ⟨List.Perm.refl rs, fun _ => rfl⟩

theorem trans (h : Rearranged c rs rs') (h' : Rearranged c rs' rs'') : Rearranged c rs rs'' :=
  ⟨h'.perm.trans h.perm, fun r => (h'.stable r).trans (h.stable r)⟩

theorem append (hxs : Rearranged c xs xs') (hys : Rearranged c ys ys') :
    Rearranged c (xs ++ ys) (xs' ++ ys') where
  perm := hxs.perm.append hys.perm
  stable := by
    intro r
    rw [List.filter_append, List.filter_append, hxs.stable r, hys.stable r]

theorem append_left (xs : List Record) (hys : Rearranged c ys ys') :
    Rearranged c (xs ++ ys) (xs ++ ys') := (refl c xs).append hys

theorem append_right (hxs : Rearranged c xs xs') (ys : List Record) :
    Rearranged c (xs ++ ys) (xs' ++ ys) := hxs.append (refl c ys)

/-- Two blocks change places. -/
theorem exchange (hc : Coherent c) (h : ∀ x ∈ xs, ∀ y ∈ ys, c.Before y x) :
    Rearranged c (xs ++ ys) (ys ++ xs) where
  perm := List.perm_append_comm
  stable := by
    intro r
    rw [List.filter_append, List.filter_append]
    -- Records that are tied with `r` are in one of the blocks only.
    by_cases hxs : ∃ x ∈ xs, c.ties r x = true
    · obtain ⟨x, hx, hrx⟩ := hxs
      have hnone : ys.filter (c.ties r) = [] :=
        List.filter_eq_nil_iff.2 fun y hy hry => (h x hx y hy).not_both_ties hc ⟨hry, hrx⟩
      rw [hnone, List.nil_append, List.append_nil]
    · have hnone : xs.filter (c.ties r) = [] :=
        List.filter_eq_nil_iff.2 fun x hx hrx => hxs ⟨x, hx, hrx⟩
      rw [hnone, List.nil_append, List.append_nil]

/-- A record moves in front of a block that it comes before. -/
theorem exchange_cons (hc : Coherent c) {r : Record} (h : ∀ x ∈ xs, c.Before r x)
    (ys : List Record) : Rearranged c (xs ++ r :: ys) (r :: (xs ++ ys)) := by
  have hblocks : Rearranged c (xs ++ [r]) ([r] ++ xs) :=
    exchange hc fun x hx => List.forall_mem_singleton.2 (h x hx)
  have hall := hblocks.append_right ys
  rwa [List.append_assoc, List.append_assoc] at hall

theorem stablySorted (h : Rearranged c rs rs') (hsorted : StablySorted c rs' sorted) :
    StablySorted c rs sorted where
  perm := hsorted.perm.trans h.perm
  ordered := hsorted.ordered
  stable r := (hsorted.stable r).trans (h.stable r)

theorem subperm (h : Rearranged c rs rs') : rs'.Subperm rs := h.perm.subperm

end Rearranged

namespace StablySorted

theorem rearranged (h : StablySorted c rs sorted) : Rearranged c rs sorted := ⟨h.perm, h.stable⟩

theorem of_rearranged (h : Rearranged c rs sorted) (hordered : sorted.Pairwise c.InOrder) :
    StablySorted c rs sorted := ⟨h.perm, hordered, h.stable⟩

theorem of_pairwise (h : rs.Pairwise c.InOrder) : StablySorted c rs rs :=
  of_rearranged (.refl c rs) h

theorem of_length_le_one (c : Comparator) (h : rs.length ≤ 1) : StablySorted c rs rs := by
  refine of_pairwise ?_
  match rs, h with
  | [], _ => exact List.Pairwise.nil
  | [r], _ => exact List.pairwise_singleton _ r

theorem singleton (c : Comparator) (r : Record) : StablySorted c [r] [r] :=
  of_pairwise (List.pairwise_singleton _ _)

theorem append (hxs : StablySorted c xs xs') (hys : StablySorted c ys ys')
    (h : ∀ x ∈ xs, ∀ y ∈ ys, c.InOrder x y) : StablySorted c (xs ++ ys) (xs' ++ ys') := by
  refine of_rearranged (hxs.rearranged.append hys.rearranged) ?_
  refine List.pairwise_append.2 ⟨hxs.ordered, hys.ordered, ?_⟩
  intro x hx y hy
  exact h x (hxs.perm.subset hx) y (hys.perm.subset hy)

theorem cons {r : Record} (hxs : StablySorted c xs xs') (h : ∀ x ∈ xs, c.InOrder r x) :
    StablySorted c (r :: xs) (r :: xs') :=
  (singleton c r).append hxs (List.forall_mem_singleton.2 h)

theorem concat {r : Record} (hxs : StablySorted c xs xs') (h : ∀ x ∈ xs, c.InOrder x r) :
    StablySorted c (xs ++ [r]) (xs' ++ [r]) :=
  hxs.append (singleton c r) fun x hx => List.forall_mem_singleton.2 (h x hx)

/-- Records are sorted between one that comes before all of them and one that comes after them. -/
theorem between {first last : Record} (hxs : StablySorted c xs xs')
    (hfirst : ∀ x ∈ xs, c.InOrder first x) (hlast : ∀ x ∈ xs, c.InOrder x last)
    (hends : c.InOrder first last) :
    StablySorted c (first :: (xs ++ [last])) (first :: (xs' ++ [last])) :=
  (hxs.concat hlast).cons (List.forall_mem_append.2 ⟨hfirst, List.forall_mem_singleton.2 hends⟩)

/-- Strictly descending records are sorted by turning them round. -/
theorem reverse (hc : Coherent c) (h : rs.Pairwise fun a b => c.Before b a) :
    StablySorted c rs rs.reverse := by
  induction rs with
  | nil => exact of_pairwise List.Pairwise.nil
  | cons r rs ih =>
    obtain ⟨hr, hrs⟩ := List.pairwise_cons.1 h
    have hmoved : Rearranged c ([r] ++ rs) (rs ++ [r]) :=
      .exchange hc (List.forall_mem_singleton.2 hr)
    rw [List.reverse_cons]
    exact hmoved.stablySorted ((ih hrs).concat fun x hx => (hr x hx).inOrder)

end StablySorted

end EntityStore
