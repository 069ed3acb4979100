import EntityStore.Proofs.Sorting.Runs

/-!
# Quicksort is a stable sort

A partition moves the records that come before the pivot in front of the others, without changing
the order within either.  What quicksort is told as a floor comes before none of its records, so a
pivot that does not come after the floor is tied with all that do not come after the pivot.

    (∀ bound, floor = some bound → ∀ x ∈ xs, c.InOrder bound x) → xs.Subperm rs →
      (quicksort limit xs floor).Ensures c rs (StablySorted c xs)              (ensures_quicksort)
    xs.Subperm rs → (sort xs).Ensures c rs (StablySorted c xs)                      (ensures_sort)
-/

namespace EntityStore.Sorting

open Asking (before Ensures)
open Comparator (allowed_of_append allowed_of_append')

variable {c : Comparator} {rs xs prior later : List Record} {pivot : Record}

/-! ## Pivots -/

section Pivots

variable {i j k n : Nat} (hsub : xs.Subperm rs)
include hsub

theorem allowed_of_getElem? {a b : Record} (hij : i < j) (ha : xs[i]? = some a)
    (hb : xs[j]? = some b) : c.Allowed rs a b := by
  rw [← List.take_append_drop j xs] at hsub
  refine allowed_of_append hsub (List.mem_of_getElem? (i := i) ?_)
    (List.mem_of_getElem? (i := 0) ?_)
  · rw [List.getElem?_take_of_lt hij, ha]
  · rw [List.getElem?_drop, Nat.add_zero, hb]

theorem ensures_medianOfThree (hij : i < j) (hjk : j < k) (hk : k < xs.length) :
    (medianOfThree xs i j k).Ensures c rs fun m => m = i ∨ m = j ∨ m = k := by
  have ha := List.getElem?_eq_getElem (by omega : i < xs.length)
  have hb := List.getElem?_eq_getElem (by omega : j < xs.length)
  have hd := List.getElem?_eq_getElem hk
  simp only [medianOfThree, ha, hb, hd]
  refine ⟨allowed_of_getElem? hsub hij ha hb, fun ab _ => ?_⟩
  refine ⟨allowed_of_getElem? hsub (by omega) ha hd, fun ac _ => ?_⟩
  show Ensures c rs _ (if ab = ac then _ else _)
  split
  · refine ⟨allowed_of_getElem? hsub hjk hb hd, fun bc _ => ?_⟩
    show (if bc = ab then j else k) = i ∨ (if bc = ab then j else k) = j ∨
      (if bc = ab then j else k) = k
    split <;> simp
  · exact .inl rfl

theorem ensures_medianOfMedians (hn : 0 < n) (hij : i + n ≤ j) (hjk : j + n ≤ k)
    (hk : k + n ≤ xs.length) :
    (medianOfMedians xs i j k n).Ensures c rs fun m =>
      (i ≤ m ∧ m < i + n) ∨ (j ≤ m ∧ m < j + n) ∨ (k ≤ m ∧ m < k + n) := by
  induction i, j, k, n using medianOfMedians.induct with
  | case1 i j k n h =>
    rw [medianOfMedians, if_pos h]
    refine (ensures_medianOfThree hsub (by omega) (by omega) (by omega)).mono fun m hm => ?_
    omega
  | case2 i j k n h ihi ihj ihk =>
    rw [medianOfMedians, if_neg h]
    refine (ihi (by omega) (by omega) (by omega) (by omega)).bind fun i' hi' => ?_
    refine (ihj (by omega) (by omega) (by omega) (by omega)).bind fun j' hj' => ?_
    refine (ihk (by omega) (by omega) (by omega) (by omega)).bind fun k' hk' => ?_
    refine (ensures_medianOfThree hsub (by omega) (by omega) (by omega)).mono fun m hm => ?_
    omega

theorem ensures_choosePivot (hlength : 8 ≤ xs.length) :
    (choosePivot xs).Ensures c rs fun place => place < xs.length := by
  refine (ensures_medianOfMedians hsub (by omega) (by omega) (by omega) (by omega)).mono
    fun m hm => ?_
  omega

end Pivots

/-! ## Partition -/

/-- The records that are one way stand before those that are the other way, each in their order. -/
structure Parted (c : Comparator) (P N : Record → Prop) (xs left right : List Record) : Prop where
  rearranged : Rearranged c xs (left ++ right)
  left : ∀ x ∈ left, P x
  right : ∀ x ∈ right, N x

section Parts

variable {P N : Record → Prop} {ys left right left' right' : List Record} {x : Record}

theorem Parted.single_left (h : P x) : Parted c P N [x] [x] [] :=
  ⟨.refl c _, List.forall_mem_singleton.2 h, List.forall_mem_nil _⟩

theorem Parted.single_right (h : N x) : Parted c P N [x] [] [x] :=
  ⟨.refl c _, List.forall_mem_nil _, List.forall_mem_singleton.2 h⟩

theorem Parted.mem (h : Parted c P N xs left right) (hx : x ∈ xs) : P x ∨ N x := by
  rcases List.mem_append.1 (h.rearranged.perm.symm.subset hx) with hx | hx
  · exact .inl (h.left x hx)
  · exact .inr (h.right x hx)

theorem Parted.left_subperm (h : Parted c P N xs left right) : left.Subperm xs :=
  (List.sublist_append_left left right).subperm.trans h.rearranged.subperm

theorem Parted.right_subperm (h : Parted c P N xs left right) : right.Subperm xs :=
  (List.sublist_append_right left right).subperm.trans h.rearranged.subperm

theorem Parted.stablySorted (h : Parted c P N xs left right)
    (hway : ∀ x y, P x → N y → c.Before x y) (hleft : StablySorted c left left')
    (hright : StablySorted c right right') : StablySorted c xs (left' ++ right') :=
  h.rearranged.stablySorted (hleft.append hright fun x hx y hy =>
    (hway x y (h.left x hx) (h.right y hy)).inOrder)

variable (hc : Coherent c) (hway : ∀ x y, P x → N y → c.Before x y)
include hc hway

theorem Parted.append (h : Parted c P N xs left right) (h' : Parted c P N ys left' right') :
    Parted c P N (xs ++ ys) (left ++ left') (right ++ right') where
  rearranged := by
    have hmoved : Rearranged c (right ++ left') (left' ++ right) :=
      .exchange hc fun x hx y hy => hway y x (h'.left y hy) (h.right x hx)
    have hparts := h.rearranged.append h'.rearranged
    have hmiddle := (hmoved.append_left left).append_right right'
    simp only [List.append_assoc] at hparts hmiddle ⊢
    exact hparts.trans hmiddle
  left := List.forall_mem_append.2 ⟨h.left, h'.left⟩
  right := List.forall_mem_append.2 ⟨h.right, h'.right⟩

theorem ensures_sift {question : Record → Asking Record Bool}
    (h : ∀ x ∈ xs, (question x).Ensures c rs fun answer => if answer then P x else N x) :
    (sift question xs).Ensures c rs fun out => Parted c P N xs out.1 out.2 := by
  induction xs with
  | nil => exact ⟨.refl c [], List.forall_mem_nil _, List.forall_mem_nil _⟩
  | cons x xs ih =>
    obtain ⟨hx, hxs⟩ := List.forall_mem_cons.1 h
    refine hx.bind fun answer hanswer => (ih hxs).bind fun ⟨left, right⟩ hparted => ?_
    cases answer with
    | true => exact (Parted.single_left hanswer).append hc hway hparted
    | false => exact (Parted.single_right hanswer).append hc hway hparted

/-- The same question is asked about what stands before a pivot and about what stands behind it. -/
theorem ensures_sift_around {question : Record → Asking Record Bool}
    {f : List Record × List Record → List Record × List Record →
      Asking Record (List Record × List Record)} {Q : List Record × List Record → Prop}
    (h : ∀ x ∈ prior ++ later, (question x).Ensures c rs fun answer => if answer then P x else N x)
    (hf : ∀ p p', (∀ x ∈ prior ++ later, P x ∨ N x) → Parted c P N prior p.1 p.2 →
      Parted c P N later p'.1 p'.2 → (f p p').Ensures c rs Q) :
    (sift question prior >>= fun p => sift question later >>= f p).Ensures c rs Q := by
  obtain ⟨hprior, hlater⟩ := List.forall_mem_append.1 h
  refine (ensures_sift hc hway hprior).bind fun p hp => ?_
  refine (ensures_sift hc hway hlater).bind fun p' hp' => ?_
  exact hf p p' (List.forall_mem_append.2 ⟨fun x => hp.mem, fun x => hp'.mem⟩) hp hp'

end Parts

section Pivot

variable (hsub : (prior ++ pivot :: later).Subperm rs)

include hsub in
theorem allowed_pivot {x : Record} (hx : x ∈ prior ++ later) :
    c.Allowed rs x pivot ∧ c.Allowed rs pivot x := by
  rcases List.mem_append.1 hx with hx | hx
  · exact ⟨allowed_of_append hsub hx List.mem_cons_self,
      allowed_of_append' hsub hx List.mem_cons_self⟩
  · rw [List.append_cons] at hsub
    have hpivot : pivot ∈ prior ++ [pivot] := by simp
    exact ⟨allowed_of_append' hsub hpivot hx, allowed_of_append hsub hpivot hx⟩

variable (hc : c.Lawful) (hne : prior ++ later ≠ [])

include hc hne in
theorem inOrder_pivot (h : ∀ x ∈ prior ++ later, c.InOrder x pivot ∨ c.InOrder pivot x) :
    c.InOrder pivot pivot := by
  obtain ⟨x, hx⟩ := List.exists_mem_of_ne_nil _ hne
  rcases h x hx with hxp | hpx
  · exact hc.inOrder_self (hxp.comparable.symm hc.coherent)
  · exact hc.inOrder_self hpx.comparable

include hc hsub hne

theorem ensures_partitionBefore :
    (partitionBefore prior pivot later).Ensures c rs fun out =>
      Parted c (fun x => c.Before x pivot) (fun x => c.InOrder pivot x) (prior ++ pivot :: later)
        out.1 out.2 := by
  have hway : ∀ x y, c.Before x pivot → c.InOrder pivot y → c.Before x y := fun x y hx hy =>
    hx.trans_inOrder hc.coherent hy
  have hquestion : ∀ x ∈ prior ++ later, (before x pivot).Ensures c rs fun answer =>
      if answer then c.Before x pivot else c.InOrder pivot x := by
    refine fun x hx => ⟨(allowed_pivot hsub hx).1, fun answer hanswer => ?_⟩
    cases answer <;> exact hanswer
  refine ensures_sift_around hc.coherent hway hquestion fun p p' hall hprior hlater => ?_
  have hpivot : c.InOrder pivot pivot :=
    inOrder_pivot hc hne fun x hx => (hall x hx).imp_left Comparator.Before.inOrder
  have hrest := (Parted.single_right hpivot).append hc.coherent hway hlater
  exact hprior.append hc.coherent hway hrest

theorem ensures_partitionUpTo :
    (partitionUpTo prior pivot later).Ensures c rs fun out =>
      Parted c (fun x => c.InOrder x pivot) (fun x => c.Before pivot x) (prior ++ pivot :: later)
        out.1 out.2 := by
  have hway : ∀ x y, c.InOrder x pivot → c.Before pivot y → c.Before x y := fun x y hx hy =>
    hx.trans_before hc.coherent hy
  have hquestion : ∀ x ∈ prior ++ later, (do
      let after ← before pivot x
      pure !after : Asking Record Bool).Ensures c rs fun answer =>
        if answer then c.InOrder x pivot else c.Before pivot x := by
    refine fun x hx => ⟨(allowed_pivot hsub hx).2, fun answer hanswer => ?_⟩
    cases answer <;> exact hanswer
  refine ensures_sift_around hc.coherent hway hquestion fun p p' hall hprior hlater => ?_
  have hpivot : c.InOrder pivot pivot :=
    inOrder_pivot hc hne fun x hx => (hall x hx).imp_right Comparator.Before.inOrder
  have hmiddle : Parted c (fun x => c.InOrder x pivot) (fun x => c.Before pivot x)
      [pivot] [pivot] [] := .single_left hpivot
  exact hprior.append hc.coherent hway (hmiddle.append hc.coherent hway hlater)

/-- Where nothing comes before the pivot, its equals stand first and only the rest is sorted. -/
theorem ensures_equalsFirst {sort : List Record → Asking Record (List Record)}
    (hfirst : ∀ x ∈ prior ++ pivot :: later, c.InOrder pivot x)
    (hsort : ∀ rest, rest.Subperm rs → (sort rest).Ensures c rs (StablySorted c rest)) :
    (do
      let (equal, rest) ← partitionUpTo prior pivot later
      let sorted ← sort rest
      pure (equal ++ sorted) : Asking Record (List Record)).Ensures c rs
        (StablySorted c (prior ++ pivot :: later)) := by
  refine (ensures_partitionUpTo hsub hc hne).bind fun ⟨equal, rest⟩ hparted => ?_
  have hequal : equal.Pairwise c.InOrder := by
    refine List.pairwise_of_forall_mem_list fun x hx y hy => ?_
    exact (hparted.left x hx).trans hc.coherent (hfirst y (hparted.left_subperm.subset hy))
  refine (hsort rest (hparted.right_subperm.trans hsub)).bind fun sorted hsorted => ?_
  exact hparted.stablySorted (fun x y hx hy => hx.trans_before hc.coherent hy)
    (.of_pairwise hequal) hsorted

/-- Either the pivot comes after nothing, or what comes before it is found. -/
theorem ensures_partitionAbove {equal : Bool}
    (hequal : equal = true → ∀ x ∈ prior ++ pivot :: later, c.InOrder pivot x) :
    (partitionAbove equal prior pivot later).Ensures c rs fun out =>
      (out.1 = [] → ∀ x ∈ prior ++ pivot :: later, c.InOrder pivot x) ∧
      (out.1 ≠ [] → Parted c (fun x => c.Before x pivot) (fun x => c.InOrder pivot x)
        (prior ++ pivot :: later) out.1 out.2) := by
  cases equal with
  | true => exact ⟨fun _ => hequal rfl, fun h => absurd rfl h⟩
  | false =>
    refine (ensures_partitionBefore hsub hc hne).mono fun out hparted => ⟨fun hnone x hx => ?_, ?_⟩
    · have hmem := hparted.rearranged.perm.symm.subset hx
      rw [hnone, List.nil_append] at hmem
      exact hparted.right x hmem
    · exact fun _ => hparted

end Pivot

/-! ## Quicksort -/

section Lawful

variable (hc : c.Lawful)
include hc

theorem ensures_eagerSort (hxs : xs ≠ []) (hsub : xs.Subperm rs) :
    (eagerSort xs).Ensures c rs (StablySorted c xs) :=
  ensures_driftsort hc.coherent (fun _ hys => ensures_sortHalves hc.coherent hys) hxs hsub

omit hc in
theorem ensures_atFloor (hc : Coherent c) {floor : Option Record}
    (hfloor : ∀ bound, floor = some bound → ∀ x ∈ xs, c.InOrder bound x) (hpivot : pivot ∈ xs) :
    (atFloor floor pivot).Ensures c rs fun equal =>
      equal = true → ∀ x ∈ xs, c.InOrder pivot x := by
  cases floor with
  | none => exact Bool.noConfusion
  | some bound =>
    have hbound := hfloor bound rfl
    refine .before (.inl (hbound pivot hpivot).comparable) (fun _ => Bool.noConfusion) ?_
    exact fun hle _ x hx => hle.trans hc (hbound x hx)

/-- The induction is on the number of partitions that are still allowed. -/
theorem ensures_quicksort {limit : Nat} {floor : Option Record}
    (hfloor : ∀ bound, floor = some bound → ∀ x ∈ xs, c.InOrder bound x) (hsub : xs.Subperm rs) :
    (quicksort limit xs floor).Ensures c rs (StablySorted c xs) := by
  induction limit generalizing xs floor with
  | zero =>
    rw [quicksort]
    split
    · exact ensures_sortHalves hc.coherent hsub
    · next hlong =>
      exact ensures_eagerSort hc (List.ne_nil_of_length_pos (by omega)) hsub
  | succ limit ih =>
    rw [quicksort]
    split
    · exact ensures_sortHalves hc.coherent hsub
    · next hlong =>
      rw [halvesLimit] at hlong
      refine (ensures_choosePivot hsub (by omega)).bind fun place hplace => ?_
      obtain ⟨pivot, later, hdrop⟩ : ∃ pivot later, xs.drop place = pivot :: later :=
        ⟨_, _, List.drop_eq_getElem_cons hplace⟩
      have hxs : xs.take place ++ pivot :: later = xs := by rw [← hdrop, List.take_append_drop]
      generalize xs.take place = prior at hxs ⊢
      subst hxs
      have hothers : prior ++ later ≠ [] := by
        simp only [List.length_append, List.length_cons] at hlong
        exact List.ne_nil_of_length_pos (by rw [List.length_append]; omega)
      simp only [hdrop]
      refine (ensures_atFloor hc.coherent hfloor (by simp)).bind fun equal hequal => ?_
      refine (ensures_partitionAbove hsub hc hothers hequal).bind fun ⟨left, right⟩ hparts => ?_
      obtain ⟨hnone, hsome⟩ := hparts
      show Ensures c rs _ (if left.isEmpty then _ else _)
      split
      · next hempty =>
        have hfirst := hnone (List.isEmpty_iff.1 hempty)
        exact ensures_equalsFirst hsub hc hothers hfirst fun rest hrest => ih (by simp) hrest
      · next hempty =>
        have hparted := hsome fun hnil => hempty (List.isEmpty_iff.2 hnil)
        have habove : ∀ bound, some pivot = some bound → ∀ x ∈ right, c.InOrder bound x := by
          rintro _ ⟨⟩
          exact hparted.right
        have hbelow : ∀ bound, floor = some bound → ∀ x ∈ left, c.InOrder bound x :=
          fun bound hbound x hx => hfloor bound hbound x (hparted.left_subperm.subset hx)
        refine (ih habove (hparted.right_subperm.trans hsub)).bind fun sortedRight hright => ?_
        refine (ih hbelow (hparted.left_subperm.trans hsub)).bind fun sortedLeft hleft => ?_
        exact hparted.stablySorted (fun x y hx hy => hx.trans_inOrder hc.coherent hy) hleft hright

theorem ensures_lazySort (hsub : xs.Subperm rs) :
    (lazySort xs).Ensures c rs (StablySorted c xs) :=
  ensures_quicksort hc (by simp) hsub

/-! ## All lengths -/

theorem ensures_sort (hsub : xs.Subperm rs) : (sort xs).Ensures c rs (StablySorted c xs) := by
  rw [sort]
  split
  · exact ensures_insertionSort hc.coherent hsub
  · next hlong =>
    exact ensures_driftsort hc.coherent (fun _ hys => ensures_lazySort hc hys)
      (List.ne_nil_of_length_pos (by omega)) hsub

end Lawful

end EntityStore.Sorting
