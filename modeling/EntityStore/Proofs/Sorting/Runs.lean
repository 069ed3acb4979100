import EntityStore.Proofs.Sorting.SmallSort
import EntityStore.Sorting.Driftsort

/-!
# Merging runs is a stable sort

A run holds what stood in a segment of the list, as it stood or sorted.  What is cut off at the
front and what is merged are runs again, so at every moment the runs that wait, the last run and
what is left are a rearrangement of the list, and in the end one run is.

    xs.Pairwise c.InOrder → ys.Pairwise c.InOrder → (xs ++ ys).Subperm rs →
      (merge xs ys).Ensures c rs (StablySorted c (xs ++ ys))                       (ensures_merge)
    (∀ ys, ys.Subperm rs → (quicksort ys).Ensures c rs (StablySorted c ys)) → xs.Subperm rs →
      (driftsort quicksort eager xs).Ensures c rs (StablySorted c xs)          (ensures_driftsort)
-/

namespace EntityStore.Sorting

open Asking (before Ensures)
open Comparator (allowed_of_append')

variable {c : Comparator} {rs xs ys : List Record} {x y : Record}

section Coherence

variable (hc : Coherent c)
include hc

/-! ## Merging -/

theorem ensures_mergeFront (hxs : xs.Pairwise c.InOrder) (hys : ys.Pairwise c.InOrder)
    (hallowed : ∀ x ∈ xs, ∀ y ∈ ys, c.Allowed rs y x) :
    (mergeFront xs ys).Ensures c rs (StablySorted c (xs ++ ys)) := by
  induction xs, ys using mergeFront.induct with
  | case1 ys =>
    rw [mergeFront]
    exact .of_pairwise hys
  | case2 x xs =>
    rw [mergeFront, List.append_nil]
    exact .of_pairwise hxs
  | case3 x xs y ys ihRight ihLeft =>
    obtain ⟨hx, hxs'⟩ := List.pairwise_cons.1 hxs
    obtain ⟨hy, hys'⟩ := List.pairwise_cons.1 hys
    rw [mergeFront]
    refine .before (hallowed x List.mem_cons_self y List.mem_cons_self) ?_ ?_
    · intro hyx
      have hfirst : ∀ z ∈ x :: xs, c.Before y z :=
        List.forall_mem_cons.2 ⟨hyx, fun z hz => hyx.trans_inOrder hc (hx z hz)⟩
      refine (ihRight hxs hys' fun z hz w hw =>
        hallowed z hz w (List.mem_cons_of_mem y hw)).bind fun out hout => ?_
      refine (Rearranged.exchange_cons hc hfirst ys).stablySorted (hout.cons ?_)
      exact List.forall_mem_append.2 ⟨fun z hz => (hfirst z hz).inOrder, hy⟩
    · intro hxy
      refine (ihLeft hxs' hys fun z hz w hw =>
        hallowed z (List.mem_cons_of_mem x hz) w hw).bind fun out hout => ?_
      refine hout.cons (List.forall_mem_append.2 ⟨hx, ?_⟩)
      exact List.forall_mem_cons.2 ⟨hxy, fun z hz => hxy.trans hc (hy z hz)⟩

theorem ensures_mergeBack (hxs : xs.reverse.Pairwise c.InOrder)
    (hys : ys.reverse.Pairwise c.InOrder) (hallowed : ∀ x ∈ xs, ∀ y ∈ ys, c.Allowed rs y x) :
    (mergeBack xs ys).Ensures c rs fun out =>
      StablySorted c (xs.reverse ++ ys.reverse) out.reverse := by
  induction xs, ys using mergeBack.induct with
  | case1 ys =>
    rw [mergeBack]
    exact .of_pairwise hys
  | case2 x xs =>
    rw [mergeBack, List.reverse_nil, List.append_nil]
    exact .of_pairwise hxs
  | case3 x xs y ys ihLeft ihRight =>
    have hfront : (x :: xs).reverse = xs.reverse ++ [x] := List.reverse_cons
    have hback : (y :: ys).reverse = ys.reverse ++ [y] := List.reverse_cons
    obtain ⟨hxs', hx⟩ := pairwise_concat.1 (hfront ▸ hxs)
    obtain ⟨hys', hy⟩ := pairwise_concat.1 (hback ▸ hys)
    rw [mergeBack]
    refine .before (hallowed x List.mem_cons_self y List.mem_cons_self) ?_ ?_
    · intro hyx
      refine (ihLeft hxs' hys fun z hz w hw =>
        hallowed z (List.mem_cons_of_mem x hz) w hw).bind fun out hout => ?_
      have hlast : ∀ z ∈ (y :: ys).reverse, c.Before z x := by
        rw [hback]
        exact List.forall_mem_append.2
          ⟨fun z hz => (hy z hz).trans_before hc hyx, List.forall_mem_singleton.2 hyx⟩
      have hmoved : Rearranged c ([x] ++ (y :: ys).reverse) ((y :: ys).reverse ++ [x]) :=
        .exchange hc (List.forall_mem_singleton.2 hlast)
      have hconcat := hout.concat
        (List.forall_mem_append.2 ⟨hx, fun z hz => (hlast z hz).inOrder⟩)
      have hout' : (x :: out).reverse = out.reverse ++ [x] := List.reverse_cons
      show StablySorted c _ (x :: out).reverse
      rw [List.append_assoc] at hconcat
      rw [hfront, hout', List.append_assoc]
      exact (hmoved.append_left xs.reverse).stablySorted hconcat
    · intro hxy
      refine (ihRight hxs hys' fun z hz w hw =>
        hallowed z hz w (List.mem_cons_of_mem y hw)).bind fun out hout => ?_
      have hlast : ∀ z ∈ (x :: xs).reverse, c.InOrder z y := by
        rw [hfront]
        exact List.forall_mem_append.2
          ⟨fun z hz => (hx z hz).trans hc hxy, List.forall_mem_singleton.2 hxy⟩
      have hout' : (y :: out).reverse = out.reverse ++ [y] := List.reverse_cons
      show StablySorted c _ (y :: out).reverse
      rw [hback, hout', ← List.append_assoc]
      exact hout.concat (List.forall_mem_append.2 ⟨hlast, hy⟩)

theorem ensures_merge (hxs : xs.Pairwise c.InOrder) (hys : ys.Pairwise c.InOrder)
    (hsub : (xs ++ ys).Subperm rs) : (merge xs ys).Ensures c rs (StablySorted c (xs ++ ys)) := by
  have hallowed : ∀ x ∈ xs, ∀ y ∈ ys, c.Allowed rs y x := fun x hx y hy =>
    allowed_of_append' hsub hx hy
  rw [merge]
  split
  · exact ensures_mergeFront hc hxs hys hallowed
  · rw [← List.reverse_reverse xs] at hxs
    rw [← List.reverse_reverse ys] at hys
    refine (ensures_mergeBack hc hxs hys ?_).bind fun out hout => ?_
    · intro x hx y hy
      exact hallowed x (List.mem_reverse.1 hx) y (List.mem_reverse.1 hy)
    · rwa [List.reverse_reverse, List.reverse_reverse] at hout

/-! ## Runs that are there already -/

omit hc in
theorem tells_trans (hc : Coherent c) {descending : Bool} {a b d : Record}
    (hab : c.Tells b a descending) (hbd : c.Tells d b descending) : c.Tells d a descending := by
  cases descending with
  | true => exact Comparator.Before.trans_inOrder hc hbd hab.inOrder
  | false => exact Comparator.InOrder.trans hc hab hbd

theorem ensures_runRest {descending : Bool} (hsub : (x :: ys).Subperm rs) :
    (runRest descending x ys).Ensures c rs fun n =>
      n ≤ ys.length ∧ (x :: ys.take n).Pairwise fun a b => c.Tells b a descending := by
  induction ys generalizing x with
  | nil => exact ⟨Nat.le_refl 0, List.pairwise_singleton _ x⟩
  | cons y ys ih =>
    have hsplit : ([x] ++ y :: ys).Subperm rs := hsub
    have hrest : (y :: ys).Subperm rs := (List.sublist_cons_self x _).subperm.trans hsub
    refine ⟨allowed_of_append' hsplit List.mem_cons_self List.mem_cons_self, ?_⟩
    intro answer hanswer
    show Ensures c rs _
      (if answer = descending then runRest descending y ys >>= fun n => pure (n + 1) else pure 0)
    split
    · next hgoes =>
      rw [hgoes] at hanswer
      refine (ih hrest).bind fun n hn => ?_
      obtain ⟨hle, hpairwise⟩ := hn
      refine ⟨Nat.succ_le_succ hle, List.pairwise_cons.2 ⟨?_, hpairwise⟩⟩
      refine List.forall_mem_cons.2 ⟨hanswer, fun z hz => ?_⟩
      exact tells_trans hc hanswer ((List.pairwise_cons.1 hpairwise).1 z hz)
    · exact ⟨Nat.zero_le _, List.pairwise_singleton _ x⟩

theorem ensures_frontRun (hsub : xs.Subperm rs) :
    (frontRun xs).Ensures c rs fun out => out.1 ≤ xs.length ∧
      (xs.take out.1).Pairwise fun a b => c.Tells b a out.2 := by
  match xs, hsub with
  | [], _ => exact ⟨Nat.le_refl 0, List.Pairwise.nil⟩
  | [x], _ => exact ⟨Nat.le_refl 1, List.pairwise_singleton _ x⟩
  | x :: y :: ys, hsub =>
    have hsplit : ([x] ++ y :: ys).Subperm rs := hsub
    have hrest : (y :: ys).Subperm rs := (List.sublist_cons_self x _).subperm.trans hsub
    refine ⟨allowed_of_append' hsplit List.mem_cons_self List.mem_cons_self, ?_⟩
    intro descending hanswer
    refine (ensures_runRest hc hrest).bind fun n hn => ?_
    obtain ⟨hle, hpairwise⟩ := hn
    refine ⟨Nat.add_le_add_right hle 2, List.pairwise_cons.2 ⟨?_, hpairwise⟩⟩
    refine List.forall_mem_cons.2 ⟨hanswer, fun z hz => ?_⟩
    exact tells_trans hc hanswer ((List.pairwise_cons.1 hpairwise).1 z hz)

end Coherence

/-! ## Cutting off a run -/

/-- The run says truly whether it is sorted. -/
def Run.Ordered (c : Comparator) (run : Run Record) : Prop :=
  run.sorted = true → run.elements.Pairwise c.InOrder

/-- A run holds what stood at the front. -/
structure Cut (c : Comparator) (xs : List Record) (run : Run Record) (rest : List Record) :
    Prop where
  rearranged : Rearranged c xs (run.elements ++ rest)
  ordered : run.Ordered c
  shorter : rest.length < xs.length

theorem goodRunLength_pos {n : Nat} (h : 0 < n) : 0 < goodRunLength n := by
  rw [goodRunLength]
  split
  · omega
  · have hlog : 1 ≤ n.log2 := (Nat.le_log2 (by omega)).2 (by omega)
    have hpow : 2 ^ 1 ≤ 1 <<< ((1 + n.log2) / 2) := by
      rw [Nat.one_shiftLeft]
      exact Nat.pow_le_pow_right (by decide) (by omega)
    exact Nat.div_pos (Nat.le_add_right_of_le hpow) (by decide)

section Coherence

variable (hc : Coherent c)
include hc

theorem ensures_makeRun {eager : Bool} {n : Nat} (hn : 0 < n) (hxs : xs ≠ [])
    (hsub : xs.Subperm rs) :
    (makeRun eager n xs).Ensures c rs fun out => Cut c xs out.1 out.2 := by
  have hlength := List.length_pos_of_ne_nil hxs
  cases eager with
  | true =>
    have hfront := (List.take_sublist halvesLimit xs).subperm.trans hsub
    refine (ensures_sortHalves hc hfront).bind fun sorted hsorted =>
      ⟨?_, fun _ => hsorted.ordered, ?_⟩
    · have hmoved := hsorted.rearranged.append_right (xs.drop halvesLimit)
      rwa [List.take_append_drop] at hmoved
    · rw [List.length_drop]
      exact Nat.sub_lt hlength (by decide)
  | false =>
    refine ⟨?_, Bool.noConfusion, ?_⟩
    · show Rearranged c xs (xs.take n ++ xs.drop n)
      rw [List.take_append_drop]
      exact .refl c xs
    · show (xs.drop n).length < xs.length
      rw [List.length_drop]
      exact Nat.sub_lt hlength hn

theorem ensures_nextRun {eager : Bool} {n : Nat} (hn : 0 < n) (hxs : xs ≠ [])
    (hsub : xs.Subperm rs) :
    (nextRun eager n xs).Ensures c rs fun out => Cut c xs out.1 out.2 := by
  rw [nextRun]
  split
  · exact ensures_makeRun hc hn hxs hsub
  · refine (ensures_frontRun hc hsub).bind fun ⟨m, descending⟩ hfront => ?_
    obtain ⟨hle, hpairwise⟩ := hfront
    show Ensures c rs _ (if m < n then makeRun eager n xs else pure _)
    split
    · exact ensures_makeRun hc hn hxs hsub
    · next hlong =>
      have hkept : StablySorted c (xs.take m)
          (if descending then (xs.take m).reverse else xs.take m) := by
        cases descending with
        | true => exact .reverse hc hpairwise
        | false => exact .of_pairwise hpairwise
      refine ⟨?_, fun _ => hkept.ordered, ?_⟩
      · have hmoved := hkept.rearranged.append_right (xs.drop m)
        rwa [List.take_append_drop] at hmoved
      · have hlength := List.length_pos_of_ne_nil hxs
        rw [List.length_drop]
        omega

end Coherence

/-! ## Merging all runs -/

/-- What is in the runs that wait. -/
def held : List (Run Record × Nat) → List Record
  | [] => []
  | (run, _) :: rest => held rest ++ run.elements

/-- The runs so far and what is left of the list. -/
structure Collected (c : Comparator) (xs : List Record) (waiting : List (Run Record × Nat))
    (run : Run Record) (rest : List Record) : Prop where
  rearranged : Rearranged c xs (held waiting ++ run.elements ++ rest)
  waiting : ∀ w ∈ waiting, w.1.Ordered c
  last : run.Ordered c

variable {waiting : List (Run Record × Nat)} {run left right next : Run Record}
  {rest rest' : List Record} {depth d : Nat}

theorem Collected.push (h : Collected c xs waiting run rest) (hcut : Cut c rest next rest') :
    Collected c xs ((run, d) :: waiting) next rest' where
  rearranged := by
    refine h.rearranged.trans ?_
    rw [held, List.append_assoc (held waiting ++ run.elements)]
    exact hcut.rearranged.append_left _
  waiting := List.forall_mem_cons.2 ⟨h.last, h.waiting⟩
  last := hcut.ordered

section Quicksort

variable (hc : Coherent c) {quicksort : List Record → Asking Record (List Record)}
  (hquick : ∀ ys, ys.Subperm rs → (quicksort ys).Ensures c rs (StablySorted c ys))
include hc hquick

omit hc in
theorem ensures_run_sort (h : run.Ordered c) (hsub : run.elements.Subperm rs) :
    (run.sort quicksort).Ensures c rs (StablySorted c run.elements) := by
  rw [Run.sort]
  split
  · next hsorted => exact .of_pairwise (h hsorted)
  · exact hquick _ hsub

theorem ensures_run_append {scratch : Nat} (hleft : left.Ordered c) (hright : right.Ordered c)
    (hsub : (left.elements ++ right.elements).Subperm rs) :
    (left.append quicksort scratch right).Ensures c rs fun run =>
      Rearranged c (left.elements ++ right.elements) run.elements ∧ run.Ordered c := by
  rw [Run.append]
  split
  · refine (ensures_run_sort hquick hleft
      ((List.sublist_append_left _ _).subperm.trans hsub)).bind fun xs hxs => ?_
    refine (ensures_run_sort hquick hright
      ((List.sublist_append_right _ _).subperm.trans hsub)).bind fun ys hys => ?_
    have hparts := hxs.rearranged.append hys.rearranged
    refine (ensures_merge hc hxs.ordered hys.ordered (hparts.subperm.trans hsub)).bind
      fun merged hmerged => ⟨hparts.trans hmerged.rearranged, fun _ => hmerged.ordered⟩
  · exact ⟨.refl c _, Bool.noConfusion⟩

/-- With depth zero all runs are merged. -/
theorem ensures_collapse {scratch : Nat} (hsub : xs.Subperm rs)
    (h : Collected c xs waiting run rest) :
    (collapse quicksort scratch depth waiting run).Ensures c rs fun out =>
      Collected c xs out.1 out.2 rest ∧ (depth = 0 → out.1 = []) := by
  induction waiting generalizing run with
  | nil => exact ⟨h, fun _ => rfl⟩
  | cons w waiting ih =>
    obtain ⟨left, d⟩ := w
    obtain ⟨hleft, hwaiting⟩ := List.forall_mem_cons.1 h.waiting
    rw [collapse]
    split
    · have hheld := h.rearranged
      rw [held, List.append_assoc (held waiting)] at hheld
      have hpart : (left.elements ++ run.elements).Sublist
          (held waiting ++ (left.elements ++ run.elements) ++ rest) :=
        (List.sublist_append_right _ _).trans (List.sublist_append_left _ _)
      refine (ensures_run_append hc hquick hleft h.last
        (hpart.subperm.trans (hheld.subperm.trans hsub))).bind fun merged hmerged => ?_
      refine ih ⟨hheld.trans ?_, hwaiting, hmerged.2⟩
      exact (hmerged.1.append_left (held waiting)).append_right rest
    · next hdeep => exact ⟨h, fun hzero => absurd (Nat.zero_le d) (hzero ▸ hdeep)⟩

/-- The induction is on the fuel, of which there is more than what is left of the list. -/
theorem ensures_mergeRuns {eager : Bool} {length fuel scanned : Nat} (hlength : 0 < length)
    (hsub : xs.Subperm rs) (h : Collected c xs waiting run rest) (hfuel : rest.length < fuel) :
    (mergeRuns quicksort eager length fuel waiting run scanned rest).Ensures c rs fun run =>
      Rearranged c xs run.elements ∧ run.Ordered c := by
  induction fuel generalizing waiting run scanned rest with
  | zero => exact absurd hfuel (Nat.not_lt_zero _)
  | succ fuel ih =>
    rw [mergeRuns]
    split
    · next hrest =>
      rw [List.isEmpty_iff.1 hrest] at h
      refine (ensures_collapse hc hquick hsub h).bind fun ⟨waiting', run'⟩ hout => ?_
      obtain ⟨hcollected, hnone⟩ := hout
      have hall := hcollected.rearranged
      rw [hnone rfl, held, List.nil_append, List.append_nil] at hall
      exact ⟨hall, hcollected.last⟩
    · next hrest =>
      have hne : rest ≠ [] := fun hnil => hrest (List.isEmpty_iff.2 hnil)
      have hleft : rest.Subperm rs :=
        (List.sublist_append_right _ _).subperm.trans (h.rearranged.subperm.trans hsub)
      refine (ensures_nextRun hc (goodRunLength_pos hlength) hne hleft).bind
        fun ⟨next, rest'⟩ hcut => ?_
      refine (ensures_collapse hc hquick hsub h).bind fun ⟨waiting', run'⟩ hout => ?_
      have hshorter : rest'.length < rest.length := hcut.shorter
      exact ih (hout.1.push hcut) (by omega)

theorem ensures_driftsort {eager : Bool} (hxs : xs ≠ []) (hsub : xs.Subperm rs) :
    (driftsort quicksort eager xs).Ensures c rs (StablySorted c xs) := by
  have hlength := List.length_pos_of_ne_nil hxs
  refine (ensures_nextRun hc (goodRunLength_pos hlength) hxs hsub).bind
    fun ⟨first, rest⟩ hcut => ?_
  have hstart : Collected c xs [] first rest :=
    ⟨hcut.rearranged, List.forall_mem_nil _, hcut.ordered⟩
  refine (ensures_mergeRuns hc hquick hlength hsub hstart hcut.shorter).bind fun run hrun => ?_
  obtain ⟨hmoved, hordered⟩ := hrun
  refine (ensures_run_sort hquick hordered (hmoved.subperm.trans hsub)).mono ?_
  exact fun out hout => hmoved.stablySorted hout

end Quicksort

end EntityStore.Sorting
