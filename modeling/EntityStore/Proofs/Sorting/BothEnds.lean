import EntityStore.Proofs.Sorting.Truth
import EntityStore.Sorting.SmallSort

/-!
# Merging from both ends

The merge from both ends rests on what the two ways know of each other although neither looks: what
was taken at the front comes before all that the front has not reached, even where the back was
there already.  So each way takes from the middle, which neither has reached, as long as there is
one, and after as many steps as each has to take nothing is left of it but an odd element.

    Facing c L R (n + 1) m l r → (takeFront (endsOf l r)).Ensures c rs …        (Facing.takeFront)
    Facing c L R n (m + 1) l r → (takeBack (endsOf l r)).Ensures c rs …          (Facing.takeBack)
    xs.Pairwise c.InOrder → ys.Pairwise c.InOrder → … →
      (mergeBoth xs ys).Ensures c rs (StablySorted c (xs ++ ys))              (ensures_mergeBoth)
-/

namespace EntityStore.Sorting

open Asking (Ensures)
open Comparator (allowed_of_append')

/-- A part of which some records were taken at the front and some at the back. -/
structure Part where
  front : List Record
  middle : List Record
  back : List Record

/-- What the way from the front has not reached. -/
def Part.ahead (p : Part) : List Record := p.middle ++ p.back

/-- What the way from the back has not reached. -/
def Part.behind (p : Part) : List Record := p.front ++ p.middle

theorem Part.ahead_cases {p : Part} {x : Record} {xs : List Record} (h : p.ahead = x :: xs) :
    (∃ m, p.middle = x :: m ∧ xs = m ++ p.back) ∨ (p.middle = [] ∧ x ∈ p.back) := by
  rw [Part.ahead] at h
  cases hm : p.middle with
  | nil =>
    rw [hm, List.nil_append] at h
    rw [h]
    exact .inr ⟨rfl, List.mem_cons_self⟩
  | cons y m =>
    rw [hm, List.cons_append] at h
    obtain ⟨rfl, rfl⟩ := List.cons.inj h
    exact .inl ⟨m, rfl, rfl⟩

theorem Part.behind_cases {p : Part} {x : Record} {xs : List Record} (h : p.behind = xs ++ [x]) :
    (∃ m, p.middle = m ++ [x] ∧ xs = p.front ++ m) ∨ (p.middle = [] ∧ x ∈ p.front) := by
  rw [Part.behind] at h
  rcases List.eq_nil_or_concat' p.middle with hm | ⟨m, y, hm⟩
  · rw [hm, List.append_nil] at h
    rw [h]
    exact .inr ⟨hm, List.mem_append_right xs (List.mem_singleton_self x)⟩
  · rw [hm, ← List.append_assoc] at h
    obtain ⟨rfl, hxy⟩ := List.append_inj' h rfl
    obtain rfl : y = x := by simpa using hxy
    exact .inl ⟨m, hm, rfl⟩

def endsOf (l r : Part) : Ends Record := ⟨l.ahead, r.ahead, l.behind.reverse, r.behind.reverse⟩

/-- Both ways are still facing each other, with a number of steps to take for each. -/
structure Facing (c : Comparator) (left right : List Record) (toFront toBack : Nat) (l r : Part) :
    Prop where
  left_eq : left = l.front ++ l.middle ++ l.back
  right_eq : right = r.front ++ r.middle ++ r.back
  leftFront : ∀ x ∈ l.front, ∀ y ∈ r.ahead, c.InOrder x y
  rightFront : ∀ y ∈ r.front, ∀ x ∈ l.ahead, c.Before y x
  leftBack : ∀ x ∈ l.back, ∀ y ∈ r.behind, c.Before y x
  rightBack : ∀ y ∈ r.back, ∀ x ∈ l.behind, c.InOrder x y
  fronts : l.front.length + r.front.length + toFront = left.length
  backs : l.back.length + r.back.length + toBack = left.length

section Steps

variable {c : Comparator} {left right lm rm xs ys rs : List Record} {n m : Nat} {x y : Record}
  {l r : Part}

namespace Facing

theorem middle_length (h : Facing c left right n m l r) :
    l.middle.length + r.middle.length + left.length = right.length + n + m := by
  have hfronts := h.fronts
  have hbacks := h.backs
  have hleft := congrArg List.length h.left_eq
  have hright := congrArg List.length h.right_eq
  simp only [List.length_append] at hleft hright
  omega

theorem left_eq_ahead (h : Facing c left right n m l r) : left = l.front ++ l.ahead :=
  h.left_eq.trans (List.append_assoc _ _ _)

theorem right_eq_ahead (h : Facing c left right n m l r) : right = r.front ++ r.ahead :=
  h.right_eq.trans (List.append_assoc _ _ _)

theorem left_eq_behind (h : Facing c left right n m l r) : left = l.behind ++ l.back := h.left_eq

theorem right_eq_behind (h : Facing c left right n m l r) : right = r.behind ++ r.back := h.right_eq

/-! ## One more record is taken -/

theorem frontLeft (h : Facing c left right (n + 1) m l r) (hl : l.middle = x :: lm)
    (hx : ∀ y ∈ r.ahead, c.InOrder x y) :
    Facing c left right n m ⟨l.front ++ [x], lm, l.back⟩ r where
  left_eq := by simpa [hl] using h.left_eq
  right_eq := h.right_eq
  leftFront := List.forall_mem_append.2 ⟨h.leftFront, List.forall_mem_singleton.2 hx⟩
  rightFront y hy z hz := h.rightFront y hy z (by
    rw [Part.ahead, hl]
    exact List.mem_cons_of_mem x hz)
  leftBack := h.leftBack
  rightBack y hy := by simpa [Part.behind, hl] using h.rightBack y hy
  fronts := by
    have hcount := h.fronts
    simp only [List.length_append, List.length_singleton]
    omega
  backs := h.backs

theorem frontRight (h : Facing c left right (n + 1) m l r) (hr : r.middle = y :: rm)
    (hy : ∀ x ∈ l.ahead, c.Before y x) :
    Facing c left right n m l ⟨r.front ++ [y], rm, r.back⟩ where
  left_eq := h.left_eq
  right_eq := by simpa [hr] using h.right_eq
  leftFront x hx z hz := h.leftFront x hx z (by
    rw [Part.ahead, hr]
    exact List.mem_cons_of_mem y hz)
  rightFront := List.forall_mem_append.2 ⟨h.rightFront, List.forall_mem_singleton.2 hy⟩
  leftBack x hx := by simpa [Part.behind, hr] using h.leftBack x hx
  rightBack := h.rightBack
  fronts := by
    have hcount := h.fronts
    simp only [List.length_append, List.length_singleton]
    omega
  backs := h.backs

theorem backLeft (h : Facing c left right n (m + 1) l r) (hl : l.middle = lm ++ [x])
    (hx : ∀ y ∈ r.behind, c.Before y x) :
    Facing c left right n m ⟨l.front, lm, x :: l.back⟩ r where
  left_eq := by simpa [hl] using h.left_eq
  right_eq := h.right_eq
  leftFront := h.leftFront
  rightFront y hy := by simpa [Part.ahead, hl] using h.rightFront y hy
  leftBack := List.forall_mem_cons.2 ⟨hx, h.leftBack⟩
  rightBack y hy z hz := h.rightBack y hy z (by
    rw [Part.behind, hl, ← List.append_assoc]
    exact List.mem_append_left [x] hz)
  fronts := h.fronts
  backs := by
    have hcount := h.backs
    simp only [List.length_cons]
    omega

theorem backRight (h : Facing c left right n (m + 1) l r) (hr : r.middle = rm ++ [y])
    (hy : ∀ x ∈ l.behind, c.InOrder x y) :
    Facing c left right n m l ⟨r.front, rm, y :: r.back⟩ where
  left_eq := h.left_eq
  right_eq := by simpa [hr] using h.right_eq
  leftFront x hx := by simpa [Part.ahead, hr] using h.leftFront x hx
  rightFront := h.rightFront
  leftBack x hx z hz := h.leftBack x hx z (by
    rw [Part.behind, hr, ← List.append_assoc]
    exact List.mem_append_left [y] hz)
  rightBack := List.forall_mem_cons.2 ⟨hy, h.rightBack⟩
  fronts := h.fronts
  backs := by
    have hcount := h.backs
    simp only [List.length_cons]
    omega

/-! ## Where it is taken from -/

section Sides

variable (hc : Coherent c) (hlength : left.length ≤ right.length)
include hlength

theorem exists_mem_left (h : Facing c left right n m l r) (hsteps : 0 < n + m)
    (hr : r.middle = []) : ∃ x, x ∈ l.middle := by
  have hmiddle := h.middle_length
  rw [hr, List.length_nil] at hmiddle
  exact List.exists_mem_of_length_pos (by omega)

theorem exists_mem_right (h : Facing c left right n m l r) (hsteps : 0 < n + m)
    (hl : l.middle = []) : ∃ y, y ∈ r.middle := by
  have hmiddle := h.middle_length
  rw [hl, List.length_nil] at hmiddle
  exact List.exists_mem_of_length_pos (by omega)

theorem exists_ahead (h : Facing c left right (n + 1) m l r) :
    (∃ x xs, l.ahead = x :: xs) ∧ ∃ y ys, r.ahead = y :: ys := by
  have hfronts := h.fronts
  have hleft := congrArg List.length h.left_eq_ahead
  have hright := congrArg List.length h.right_eq_ahead
  rw [List.length_append] at hleft hright
  constructor <;> exact List.exists_cons_of_length_pos (by omega)

theorem exists_behind (h : Facing c left right n (m + 1) l r) :
    (∃ xs x, l.behind = xs ++ [x]) ∧ ∃ ys y, r.behind = ys ++ [y] := by
  have hbacks := h.backs
  have hleft := congrArg List.length h.left_eq_behind
  have hright := congrArg List.length h.right_eq_behind
  rw [List.length_append] at hleft hright
  constructor
  · exact (List.eq_nil_or_concat' l.behind).resolve_left (List.ne_nil_of_length_pos (by omega))
  · exact (List.eq_nil_or_concat' r.behind).resolve_left (List.ne_nil_of_length_pos (by omega))

include hc

theorem exists_left_cons (h : Facing c left right (n + 1) m l r) (hx : l.ahead = x :: xs)
    (hfirst : ∀ y ∈ r.ahead, c.InOrder x y) : ∃ lm, l.middle = x :: lm ∧ xs = lm ++ l.back := by
  refine (Part.ahead_cases hx).resolve_right ?_
  rintro ⟨hnil, hx⟩
  obtain ⟨y, hy⟩ := h.exists_mem_right hlength (by omega) hnil
  have hyx := h.leftBack x hx y (List.mem_append_right _ hy)
  exact hyx.not_inOrder hc (hfirst y (List.mem_append_left _ hy))

theorem exists_right_cons (h : Facing c left right (n + 1) m l r) (hy : r.ahead = y :: ys)
    (hfirst : ∀ x ∈ l.ahead, c.Before y x) : ∃ rm, r.middle = y :: rm ∧ ys = rm ++ r.back := by
  refine (Part.ahead_cases hy).resolve_right ?_
  rintro ⟨hnil, hy⟩
  obtain ⟨x, hx⟩ := h.exists_mem_left hlength (by omega) hnil
  have hxy := h.rightBack y hy x (List.mem_append_right _ hx)
  exact (hfirst x (List.mem_append_left _ hx)).not_inOrder hc hxy

theorem exists_left_concat (h : Facing c left right n (m + 1) l r) (hx : l.behind = xs ++ [x])
    (hlast : ∀ y ∈ r.behind, c.Before y x) : ∃ lm, l.middle = lm ++ [x] ∧ xs = l.front ++ lm := by
  refine (Part.behind_cases hx).resolve_right ?_
  rintro ⟨hnil, hx⟩
  obtain ⟨y, hy⟩ := h.exists_mem_right hlength (by omega) hnil
  have hxy := h.leftFront x hx y (List.mem_append_left _ hy)
  exact (hlast y (List.mem_append_right _ hy)).not_inOrder hc hxy

theorem exists_right_concat (h : Facing c left right n (m + 1) l r) (hy : r.behind = ys ++ [y])
    (hlast : ∀ x ∈ l.behind, c.InOrder x y) : ∃ rm, r.middle = rm ++ [y] ∧ ys = r.front ++ rm := by
  refine (Part.behind_cases hy).resolve_right ?_
  rintro ⟨hnil, hy⟩
  obtain ⟨x, hx⟩ := h.exists_mem_left hlength (by omega) hnil
  have hyx := h.rightFront y hy x (List.mem_append_left _ hx)
  exact hyx.not_inOrder hc (hlast x (List.mem_append_right _ hx))

end Sides

/-! ## One step of each way -/

section Sorted

variable (hc : Coherent c) (hleft : left.Pairwise c.InOrder) (hright : right.Pairwise c.InOrder)
  (hlength : left.length ≤ right.length) (hsub : (left ++ right).Subperm rs)
include hc hleft hright hlength hsub

/-- The front takes from the middle what comes before all the rest of it. -/
theorem takeFront (h : Facing c left right (n + 1) m l r) :
    (takeFront (endsOf l r)).Ensures c rs fun out => ∃ l' r', out.2 = endsOf l' r' ∧
      Facing c left right n m l' r' ∧
      Rearranged c (l.middle ++ r.middle) (out.1 :: (l'.middle ++ r'.middle)) ∧
      ∀ z ∈ l'.middle ++ r'.middle, c.InOrder out.1 z := by
  obtain ⟨⟨x, xs, hx⟩, y, ys, hy⟩ := h.exists_ahead hlength
  have hallowed : c.Allowed rs y x := by
    rw [h.left_eq_ahead, h.right_eq_ahead, hx, hy] at hsub
    exact allowed_of_append' hsub (by simp) (by simp)
  rw [h.left_eq_ahead, hx] at hleft
  rw [h.right_eq_ahead, hy] at hright
  obtain ⟨hxs, -⟩ := List.pairwise_cons.1 (List.pairwise_append.1 hleft).2.1
  obtain ⟨hys, -⟩ := List.pairwise_cons.1 (List.pairwise_append.1 hright).2.1
  simp only [Sorting.takeFront, endsOf, hx, hy]
  refine .before hallowed ?_ ?_
  · intro hyx
    have hfirst : ∀ z ∈ l.ahead, c.Before y z := by
      rw [hx]
      exact List.forall_mem_cons.2 ⟨hyx, fun z hz => hyx.trans_inOrder hc (hxs z hz)⟩
    obtain ⟨rm, hrm, rfl⟩ := h.exists_right_cons hc hlength hy hfirst
    refine ⟨l, ⟨r.front ++ [y], rm, r.back⟩, ?_, h.frontRight hrm hfirst, ?_, ?_⟩
    · simp [← hx, Part.ahead, Part.behind, hrm]
    · rw [hrm]
      exact .exchange_cons hc (fun z hz => hfirst z (List.mem_append_left _ hz)) rm
    · refine List.forall_mem_append.2 ⟨fun z hz => ?_, fun z hz => ?_⟩
      · exact (hfirst z (List.mem_append_left _ hz)).inOrder
      · exact hys z (List.mem_append_left _ hz)
  · intro hxy
    have hfirst : ∀ z ∈ r.ahead, c.InOrder x z := by
      rw [hy]
      exact List.forall_mem_cons.2 ⟨hxy, fun z hz => hxy.trans hc (hys z hz)⟩
    obtain ⟨lm, hlm, rfl⟩ := h.exists_left_cons hc hlength hx hfirst
    refine ⟨⟨l.front ++ [x], lm, l.back⟩, r, ?_, h.frontLeft hlm hfirst, ?_, ?_⟩
    · simp [← hy, Part.ahead, Part.behind, hlm]
    · rw [hlm]
      exact .refl c _
    · refine List.forall_mem_append.2 ⟨fun z hz => ?_, fun z hz => ?_⟩
      · exact hxs z (List.mem_append_left _ hz)
      · exact hfirst z (List.mem_append_left _ hz)

/-- The back takes from the middle what comes after all the rest of it. -/
theorem takeBack (h : Facing c left right n (m + 1) l r) :
    (takeBack (endsOf l r)).Ensures c rs fun out => ∃ l' r', out.2 = endsOf l' r' ∧
      Facing c left right n m l' r' ∧
      Rearranged c (l.middle ++ r.middle) (l'.middle ++ r'.middle ++ [out.1]) ∧
      ∀ z ∈ l'.middle ++ r'.middle, c.InOrder z out.1 := by
  obtain ⟨⟨xs, x, hx⟩, ys, y, hy⟩ := h.exists_behind hlength
  have hallowed : c.Allowed rs y x := by
    rw [h.left_eq_behind, h.right_eq_behind, hx, hy] at hsub
    exact allowed_of_append' hsub (by simp) (by simp)
  rw [h.left_eq_behind, hx] at hleft
  rw [h.right_eq_behind, hy] at hright
  obtain ⟨-, hxs⟩ := pairwise_concat.1 (List.pairwise_append.1 hleft).1
  obtain ⟨-, hys⟩ := pairwise_concat.1 (List.pairwise_append.1 hright).1
  have hx' : l.behind.reverse = x :: xs.reverse := by rw [hx, List.reverse_concat]
  have hy' : r.behind.reverse = y :: ys.reverse := by rw [hy, List.reverse_concat]
  simp only [Sorting.takeBack, endsOf, hx', hy']
  refine .before hallowed ?_ ?_
  · intro hyx
    have hlast : ∀ z ∈ r.behind, c.Before z x := by
      rw [hy]
      refine List.forall_mem_append.2 ⟨fun z hz => ?_, List.forall_mem_singleton.2 hyx⟩
      exact (hys z hz).trans_before hc hyx
    obtain ⟨lm, hlm, rfl⟩ := h.exists_left_concat hc hlength hx hlast
    refine ⟨⟨l.front, lm, x :: l.back⟩, r, ?_, h.backLeft hlm hlast, ?_, ?_⟩
    · simp [← hy', Part.ahead, Part.behind, hlm]
    · have hmoved : Rearranged c ([x] ++ r.middle) (r.middle ++ [x]) :=
        .exchange hc (List.forall_mem_singleton.2 fun z hz =>
          hlast z (List.mem_append_right _ hz))
      rw [hlm, List.append_assoc, List.append_assoc]
      exact hmoved.append_left lm
    · refine List.forall_mem_append.2 ⟨fun z hz => ?_, fun z hz => ?_⟩
      · exact hxs z (List.mem_append_right _ hz)
      · exact (hlast z (List.mem_append_right _ hz)).inOrder
  · intro hxy
    have hlast : ∀ z ∈ l.behind, c.InOrder z y := by
      rw [hx]
      refine List.forall_mem_append.2 ⟨fun z hz => ?_, List.forall_mem_singleton.2 hxy⟩
      exact (hxs z hz).trans hc hxy
    obtain ⟨rm, hrm, rfl⟩ := h.exists_right_concat hc hlength hy hlast
    refine ⟨l, ⟨r.front, rm, y :: r.back⟩, ?_, h.backRight hrm hlast, ?_, ?_⟩
    · simp [← hx', Part.ahead, Part.behind, hrm]
    · rw [hrm, ← List.append_assoc]
      exact .refl c _
    · refine List.forall_mem_append.2 ⟨fun z hz => ?_, fun z hz => ?_⟩
      · exact hlast z (List.mem_append_right _ hz)
      · exact hys z (List.mem_append_right _ hz)

end Sorted

/-- When no step is left, neither is more than an odd record of the longer part. -/
theorem ensures_middle (hlength : right.length = left.length ∨ right.length = left.length + 1)
    (h : Facing c left right 0 0 l r) :
    ((endsOf l r).middle left.length right.length).Ensures c rs
      (StablySorted c (l.middle ++ r.middle)) := by
  have hmiddle := h.middle_length
  have hleft := congrArg List.length h.left_eq
  have hright := congrArg List.length h.right_eq
  simp only [List.length_append] at hleft hright
  have hunused : l.ahead.length + l.behind.reverse.length = left.length + l.middle.length := by
    simp only [Part.ahead, Part.behind, List.length_reverse, List.length_append]
    omega
  have hunused' : r.ahead.length + r.behind.reverse.length = right.length + r.middle.length := by
    simp only [Part.ahead, Part.behind, List.length_reverse, List.length_append]
    omega
  simp only [Ends.middle, endsOf, hunused, hunused']
  rcases hlength with heq | heq
  · rw [if_pos (by omega), if_pos (by omega)]
    have hl : l.middle = [] := List.eq_nil_of_length_eq_zero (by omega)
    have hr : r.middle = [] := List.eq_nil_of_length_eq_zero (by omega)
    rw [hl, hr]
    exact .of_pairwise List.Pairwise.nil
  · rw [if_neg (by omega)]
    cases hl : l.middle with
    | nil =>
      rw [hl, List.length_nil] at hmiddle
      obtain ⟨y, hr⟩ := List.length_eq_one_iff.1 (by omega : r.middle.length = 1)
      rw [if_neg (by simp), if_pos (by simp [hr]), Part.ahead, hr]
      exact .singleton c y
    | cons x lm =>
      rw [hl, List.length_cons] at hmiddle
      have hr : r.middle = [] := List.eq_nil_of_length_eq_zero (by omega)
      have hlm : lm = [] := List.eq_nil_of_length_eq_zero (by omega)
      rw [if_pos (by simp), if_pos (by simp [hlm, hr]), Part.ahead, hl, hr, hlm]
      exact .singleton c x

end Facing

/-! ## All steps -/

theorem ensures_mergeEnds (hc : Coherent c) (hleft : left.Pairwise c.InOrder)
    (hright : right.Pairwise c.InOrder)
    (hlength : right.length = left.length ∨ right.length = left.length + 1)
    (hsub : (left ++ right).Subperm rs) (h : Facing c left right n n l r) :
    (mergeEnds left.length right.length n (endsOf l r)).Ensures c rs
      (StablySorted c (l.middle ++ r.middle)) := by
  induction n generalizing l r with
  | zero => exact h.ensures_middle hlength
  | succ n ih =>
    have hle : left.length ≤ right.length := by omega
    refine (h.takeFront hc hleft hright hle hsub).bind fun ⟨first, _⟩ hfront => ?_
    obtain ⟨l', r', rfl, hfacing, hrearranged, hfirst⟩ := hfront
    refine (hfacing.takeBack hc hleft hright hle hsub).bind fun ⟨last, _⟩ hback => ?_
    obtain ⟨l'', r'', rfl, hfacing', hrearranged', hlast⟩ := hback
    refine (ih hfacing').bind fun inner hinner => ?_
    have hback : StablySorted c (l'.middle ++ r'.middle) (inner ++ [last]) :=
      hrearranged'.stablySorted (hinner.concat hlast)
    exact hrearranged.stablySorted (hback.cons hfirst)

theorem ensures_mergeBoth (hc : Coherent c) (hleft : left.Pairwise c.InOrder)
    (hright : right.Pairwise c.InOrder)
    (hlength : right.length = left.length ∨ right.length = left.length + 1)
    (hsub : (left ++ right).Subperm rs) :
    (mergeBoth left right).Ensures c rs (StablySorted c (left ++ right)) := by
  have hstart : Facing c left right left.length left.length ⟨[], left, []⟩ ⟨[], right, []⟩ := by
    constructor <;> simp
  have hmerged := ensures_mergeEnds hc hleft hright hlength hsub hstart
  simpa [mergeBoth, endsOf, Part.ahead, Part.behind] using hmerged

end Steps

end EntityStore.Sorting
