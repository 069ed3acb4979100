import EntityStore.Proofs.Sorting.BothEnds

/-!
# Sorts of few elements are stable sorts

Told what is true of a coherent comparator, insertion, the networks and the two halves put records
in order stably.  Insertion alone cannot panic, whatever it is told.

    xs.Subperm rs → (insertionSort xs).Ensures c rs (StablySorted c xs)     (ensures_insertionSort)
    xs.Subperm rs → (sortHalves xs).Ensures c rs (StablySorted c xs)           (ensures_sortHalves)
-/

namespace EntityStore.Sorting

open Asking (before Ensures Steady)
open Comparator (allowed_of_append allowed_of_append')

/-! ## Insertion -/

section Insertion

variable {α : Type}

theorem steady_insert (x : α) (done : List α) : (insert x done).Steady := by
  induction done with
  | nil => exact trivial
  | cons y rest ih =>
    intro answer
    cases answer with
    | true => exact ih.bind fun _ => trivial
    | false => exact trivial

theorem steady_insertAll (done xs : List α) : (insertAll done xs).Steady := by
  induction xs generalizing done with
  | nil => exact trivial
  | cons x xs ih => exact (steady_insert x done).bind ih

theorem steady_insertionSort (xs : List α) : (insertionSort xs).Steady :=
  (steady_insertAll [] xs).bind fun _ => trivial

end Insertion

variable {c : Comparator} {rs rs' seen done xs ys : List Record} {x y : Record}

section Coherence

variable (hc : Coherent c)
include hc

/-- Seen from the front, a record goes in front of the ones that it comes before. -/
theorem ensures_insert (hdone : done.reverse.Pairwise c.InOrder)
    (hallowed : ∀ y ∈ done, c.Allowed rs x y) :
    (insert x done).Ensures c rs fun out => StablySorted c (done.reverse ++ [x]) out.reverse := by
  induction done with
  | nil => exact StablySorted.singleton c x
  | cons y rest ih =>
    obtain ⟨hy, hrest⟩ := List.forall_mem_cons.1 hallowed
    rw [List.reverse_cons] at hdone ⊢
    obtain ⟨hsorted, hbelow⟩ := pairwise_concat.1 hdone
    refine .before hy ?_ ?_
    · intro hxy
      refine (ih hsorted hrest).bind fun out hout => ?_
      show StablySorted c _ (y :: out).reverse
      rw [List.reverse_cons]
      have hmoved : Rearranged c (rest.reverse ++ [y] ++ [x]) (rest.reverse ++ [x] ++ [y]) := by
        rw [List.append_assoc, List.append_assoc]
        refine Rearranged.append_left _ (Rearranged.exchange hc ?_)
        exact List.forall_mem_singleton.2 (List.forall_mem_singleton.2 hxy)
      refine hmoved.stablySorted (hout.concat ?_)
      exact List.forall_mem_append.2 ⟨hbelow, List.forall_mem_singleton.2 hxy.inOrder⟩
    · intro hyx
      show StablySorted c _ (x :: y :: rest).reverse
      rw [List.reverse_cons, List.reverse_cons]
      refine (StablySorted.of_pairwise hdone).concat (List.forall_mem_append.2 ⟨?_, ?_⟩)
      · exact fun z hz => (hbelow z hz).trans hc hyx
      · exact List.forall_mem_singleton.2 hyx

theorem ensures_insertAll (hdone : StablySorted c seen done.reverse)
    (hsub : (seen ++ xs).Subperm rs) :
    (insertAll done xs).Ensures c rs fun out => StablySorted c (seen ++ xs) out.reverse := by
  induction xs generalizing seen done with
  | nil =>
    rw [List.append_nil]
    exact hdone
  | cons x xs ih =>
    have hallowed : ∀ y ∈ done, c.Allowed rs x y := fun y hy =>
      allowed_of_append' hsub (hdone.perm.subset (List.mem_reverse.2 hy)) List.mem_cons_self
    refine (ensures_insert hc hdone.ordered hallowed).bind fun out hout => ?_
    have hstep : StablySorted c (seen ++ [x]) out.reverse :=
      (hdone.rearranged.append_right [x]).stablySorted hout
    rw [List.append_cons] at hsub ⊢
    exact ih hstep hsub

theorem ensures_insertionSort (hsub : xs.Subperm rs) :
    (insertionSort xs).Ensures c rs (StablySorted c xs) := by
  have hnil : StablySorted c [] [].reverse := .of_pairwise List.Pairwise.nil
  exact (ensures_insertAll hc hnil hsub).bind fun out hout => hout

/-! ## Networks -/

theorem ensures_sortTwo (h : c.Allowed rs y x) :
    (sortTwo x y).Ensures c rs fun out => StablySorted c [x, y] [out.1, out.2] := by
  refine .before h ?_ ?_
  · intro hyx
    have hswap : Rearranged c [x, y] [y, x] :=
      Rearranged.exchange hc (List.forall_mem_singleton.2 (List.forall_mem_singleton.2 hyx))
    exact hswap.stablySorted (.of_pairwise (List.pairwise_pair.2 hyx.inOrder))
  · intro hxy
    exact .of_pairwise (List.pairwise_pair.2 hxy)

/-- Two records that are in order or not are sorted between two others. -/
theorem ensures_sortTwo_between {first last : Record} (h : c.Allowed rs y x)
    (hrs : Rearranged c rs' [first, x, y, last])
    (hfirst : c.InOrder first x ∧ c.InOrder first y) (hlast : c.InOrder x last ∧ c.InOrder y last) :
    (sortTwo x y).Ensures c rs fun out =>
      StablySorted c rs' (first :: ([out.1, out.2] ++ [last])) := by
  refine (ensures_sortTwo hc h).mono fun out hout => hrs.stablySorted ?_
  exact hout.between (by simpa using hfirst) (by simpa using hlast) (hfirst.1.trans hc hlast.1)

/-- One case for each way in which the first and the last are settled.  The other two stay between
them, whatever their order is. -/
theorem ensures_mergeTwos {a b d e : Record} (hab : c.InOrder a b) (hde : c.InOrder d e)
    (hsub : ([a, b] ++ [d, e]).Subperm rs) :
    (mergeTwos a b d e).Ensures c rs (StablySorted c [a, b, d, e]) := by
  have hallowed : ∀ x ∈ [a, b], ∀ y ∈ [d, e], c.Allowed rs y x := fun x hx y hy =>
    allowed_of_append' hsub hx hy
  have hda : c.Before d a → Rearranged c ([a, b] ++ d :: [e]) (d :: ([a, b] ++ [e])) := fun h =>
    .exchange_cons hc (by simp [h, h.trans_inOrder hc hab]) [e]
  refine .before (hallowed a (by simp) d (by simp)) ?_ ?_ <;> intro hfirst <;>
    refine .before (hallowed b (by simp) e (by simp)) ?_ ?_ <;> intro hlast
  · -- `d`, then `a` and `e`, then `b`.
    have heb : Rearranged c ([b] ++ [e]) ([e] ++ [b]) := .exchange hc (by simpa using hlast)
    have hmoved : Rearranged c [a, b, d, e] [d, a, e, b] :=
      (hda hfirst).trans (heb.append_left [d, a])
    exact (ensures_sortTwo_between hc (hallowed a (by simp) e (by simp)) hmoved
      ⟨hfirst.inOrder, hde⟩ ⟨hab, hlast.inOrder⟩).bind fun _ hout => hout
  · -- `d`, then `a` and `b`, then `e`.
    exact (ensures_sortTwo_between hc (.inl (hab.comparable.symm hc)) (hda hfirst)
      ⟨hfirst.inOrder, (hfirst.trans_inOrder hc hab).inOrder⟩
      ⟨hab.trans hc hlast, hlast⟩).bind fun _ hout => hout
  · -- `a`, then `d` and `e`, then `b`.
    have hdb : c.Before d b := hde.trans_before hc hlast
    have hback : Rearranged c ([b] ++ [d, e]) ([d, e] ++ [b]) :=
      .exchange hc (by simp [hdb, hlast])
    have hmoved : Rearranged c [a, b, d, e] [a, d, e, b] := hback.append_left [a]
    exact (ensures_sortTwo_between hc (.inl (hde.comparable.symm hc)) hmoved
      ⟨hfirst, hfirst.trans hc hde⟩ ⟨hdb.inOrder, hlast.inOrder⟩).bind fun _ hout => hout
  · -- `a`, then `b` and `d`, then `e`.
    exact (ensures_sortTwo_between hc (hallowed b (by simp) d (by simp)) (.refl c _)
      ⟨hab, hfirst⟩ ⟨hlast, hde⟩).bind fun _ hout => hout

theorem ensures_sortFour (hlength : xs.length = 4) (hsub : xs.Subperm rs) :
    (sortFour xs).Ensures c rs (StablySorted c xs) := by
  obtain ⟨w, x, y, z, rfl⟩ := List.length_eq_four.1 hlength
  have hsplit : ([w] ++ [x, y, z]).Subperm rs := hsub
  have hsplit' : ([w, x, y] ++ [z]).Subperm rs := hsub
  have hwx : c.Allowed rs x w := allowed_of_append' hsplit (by simp) (by simp)
  have hyz : c.Allowed rs z y := allowed_of_append' hsplit' (by simp) (by simp)
  refine (ensures_sortTwo hc hwx).bind fun ⟨a, b⟩ hab => ?_
  refine (ensures_sortTwo hc hyz).bind fun ⟨d, e⟩ hde => ?_
  have hpairs : Rearranged c [w, x, y, z] ([a, b] ++ [d, e]) := hab.rearranged.append hde.rearranged
  refine (ensures_mergeTwos hc (List.pairwise_pair.1 hab.ordered)
    (List.pairwise_pair.1 hde.ordered) (hpairs.subperm.trans hsub)).mono ?_
  exact fun out hout => hpairs.stablySorted hout

/-- What two sorted parts are merged to sorts the whole. -/
theorem ensures_mergeBoth_of_sorted {left right : List Record} (hleft : StablySorted c xs left)
    (hright : StablySorted c ys right)
    (hlength : ys.length = xs.length ∨ ys.length = xs.length + 1) (hsub : (xs ++ ys).Subperm rs) :
    (mergeBoth left right).Ensures c rs (StablySorted c (xs ++ ys)) := by
  have hparts : Rearranged c (xs ++ ys) (left ++ right) := hleft.rearranged.append hright.rearranged
  rw [← hleft.perm.length_eq, ← hright.perm.length_eq] at hlength
  refine (ensures_mergeBoth hc hleft.ordered hright.ordered hlength
    (hparts.subperm.trans hsub)).mono ?_
  exact fun out hout => hparts.stablySorted hout

theorem ensures_sortEight (hlength : xs.length = 8) (hsub : xs.Subperm rs) :
    (sortEight xs).Ensures c rs (StablySorted c xs) := by
  have hleft : (xs.take 4).length = 4 := by rw [List.length_take, hlength]; rfl
  have hright : (xs.drop 4).length = 4 := by rw [List.length_drop, hlength]
  refine (ensures_sortFour hc hleft ((List.take_sublist 4 xs).subperm.trans hsub)).bind
    fun left hl => ?_
  refine (ensures_sortFour hc hright ((List.drop_sublist 4 xs).subperm.trans hsub)).bind
    fun right hr => ?_
  have hwhole : xs.take 4 ++ xs.drop 4 = xs := List.take_append_drop 4 xs
  rw [← hwhole] at hsub
  have hmerged := ensures_mergeBoth_of_sorted hc hl hr (.inl (hright.trans hleft.symm)) hsub
  rwa [hwhole] at hmerged

/-! ## Two halves -/

theorem ensures_network (hlength : xs.length = 8 ∨ xs.length = 4 ∨ xs.length ≤ 1)
    (hsub : xs.Subperm rs) : (network xs).Ensures c rs (StablySorted c xs) := by
  rw [network]
  split
  · next h8 => exact ensures_sortEight hc h8 hsub
  · next h8 =>
    split
    · next h4 => exact ensures_sortFour hc h4 hsub
    · next h4 =>
      have hshort : xs.length ≤ 1 := (hlength.resolve_left h8).resolve_left h4
      exact .of_length_le_one c hshort

theorem ensures_insertAll_drop {start : List Record} {n : Nat}
    (hstart : StablySorted c (xs.take n) start) (hsub : xs.Subperm rs) :
    (insertAll start.reverse (xs.drop n)).Ensures c rs fun out =>
      StablySorted c xs out.reverse := by
  rw [← List.reverse_reverse start] at hstart
  have hwhole : xs.take n ++ xs.drop n = xs := List.take_append_drop n xs
  rw [← hwhole] at hsub
  have hinserted := ensures_insertAll hc hstart hsub
  rwa [hwhole] at hinserted

/-- A half is sorted by a network at its start and by insertion from there on. -/
theorem ensures_sortHalves (hsub : xs.Subperm rs) :
    (sortHalves xs).Ensures c rs (StablySorted c xs) := by
  rw [sortHalves]
  split
  · next hshort => exact .of_length_le_one c (by omega)
  · next hlong =>
    -- No half is shorter than a network that is meant for it.
    have hnetwork : ∀ m, xs.length / 2 ≤ m → min (networkLength xs.length) m = 8 ∨
        min (networkLength xs.length) m = 4 ∨ min (networkLength xs.length) m ≤ 1 := by
      intro m hm
      rw [networkLength]
      split
      · omega
      · split <;> omega
    have hleft : (xs.take (xs.length / 2)).length = xs.length / 2 := by
      rw [List.length_take]
      omega
    have hright : (xs.drop (xs.length / 2)).length = xs.length - xs.length / 2 := List.length_drop
    have hleftSub := (List.take_sublist (xs.length / 2) xs).subperm.trans hsub
    have hrightSub := (List.drop_sublist (xs.length / 2) xs).subperm.trans hsub
    refine (ensures_network hc (by rw [List.length_take]; exact hnetwork _ (by omega))
      ((List.take_sublist _ _).subperm.trans hleftSub)).bind fun leftStart hleftStart => ?_
    refine (ensures_network hc (by rw [List.length_take]; exact hnetwork _ (by omega))
      ((List.take_sublist _ _).subperm.trans hrightSub)).bind fun rightStart hrightStart => ?_
    refine (ensures_insertAll_drop hc hleftStart hleftSub).bind fun left hleft' => ?_
    refine (ensures_insertAll_drop hc hrightStart hrightSub).bind fun right hright' => ?_
    have hwhole : xs.take (xs.length / 2) ++ xs.drop (xs.length / 2) = xs :=
      List.take_append_drop _ xs
    rw [← hwhole] at hsub
    have hmerged := ensures_mergeBoth_of_sorted hc hleft' hright' (by omega) hsub
    rwa [hwhole] at hmerged

end Coherence

end EntityStore.Sorting
