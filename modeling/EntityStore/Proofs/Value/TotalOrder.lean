import EntityStore.Value.TotalOrder
import Mathlib.Data.List.Forall2

/-!
# Laws of the total order

The order of keys ranks the kinds one behind the other, `null` behind all others, and within a kind
it goes by content.  It is total, and ties nothing but a value with itself, whatever the values are:
lists of any depth with any kinds side by side, zeros of either sign, NaNs.

    a.kind ≠ b.kind → a.cmp b = compare a.kind.rank b.kind.rank                  (cmp_of_kind_ne)
    b.cmp a = (a.cmp b).swap                                                           (swap_cmp)
    a.cmp b ≠ .gt → b.cmp c ≠ .gt → a.cmp c = (a.cmp b).then (b.cmp c)                (trans_cmp)

The last says at once that what is in order stays in order along a chain, and that the chain is
strict where one of its steps is.
-/

namespace EntityStore

theorem ValueKind.rank_inj {k l : ValueKind} : k.rank = l.rank ↔ k = l := by
  refine ⟨fun h => ?_, fun h => h ▸ rfl⟩
  cases k <;> cases l <;> first | rfl | cases h

instance : Std.TransCmp Date.cmp :=
  inferInstanceAs (Std.TransCmp (compareLex (compareOn Date.year)
    (compareLex (compareOn Date.month) (compareOn Date.day))))

/-! ## Chains -/

theorem then_of_ne_gt {α : Type} {cmp : α → α → Ordering} [Std.TransCmp cmp] {a b c : α}
    (hab : cmp a b ≠ .gt) (hbc : cmp b c ≠ .gt) : cmp a c = (cmp a b).then (cmp b c) := by
  cases h : cmp a b with
  | lt => exact Std.TransCmp.lt_of_lt_of_isLE h (Ordering.isLE_iff_ne_gt.2 hbc)
  | eq => exact Std.TransCmp.congr_left h
  | gt => exact absurd h hab

/-- Two chains, of which the second counts where the first is tied. -/
theorem trans_then {o p q o' p' q' : Ordering} (hq : o ≠ .gt → p ≠ .gt → q = o.then p)
    (hq' : o' ≠ .gt → p' ≠ .gt → q' = o'.then p') (h : o.then o' ≠ .gt) (h' : p.then p' ≠ .gt) :
    q.then q' = (o.then o').then (p.then p') := by
  cases o with
  | gt => exact absurd rfl h
  | lt =>
    have hp : p ≠ .gt := by
      rintro rfl
      exact h' rfl
    rw [hq nofun hp]
    rfl
  | eq =>
    cases p with
    | gt => exact absurd rfl h'
    | lt =>
      rw [hq nofun nofun]
      cases o' with
      | gt => exact absurd rfl h
      | lt => rfl
      | eq => rfl
    | eq =>
      rw [hq nofun nofun, hq' h h']
      rfl

namespace Value

/-! ## Values of two kinds -/

theorem cmp_of_kind_ne {a b : Value} (h : a.kind ≠ b.kind) :
    a.cmp b = Ord.compare a.kind.rank b.kind.rank := by
  cases a <;> cases b <;> first | rfl | exact absurd rfl h

theorem cmp_null {a : Value} (h : a ≠ null) : a.cmp null = .lt := by
  cases a <;> first | rfl | exact absurd rfl h

/-- Kinds are in order where values are. -/
theorem rank_le_of_cmp {a b : Value} (h : a.cmp b ≠ .gt) : a.kind.rank ≤ b.kind.rank := by
  by_cases hkind : a.kind = b.kind
  · exact Nat.le_of_eq (congrArg ValueKind.rank hkind)
  · rw [cmp_of_kind_ne hkind] at h
    exact Nat.compare_ne_gt.1 h

theorem cmp_of_rank_lt {a b : Value} (h : a.kind.rank < b.kind.rank) : a.cmp b = .lt := by
  have hkind : a.kind ≠ b.kind := by
    intro hkind
    rw [hkind] at h
    exact Nat.lt_irrefl _ h
  rw [cmp_of_kind_ne hkind]
  exact Nat.compare_eq_lt.2 h

/-- A chain that leaves a kind never comes back to it. -/
theorem trans_cmp_of_kind_ne {a b c : Value} (h : ¬ (a.kind = b.kind ∧ b.kind = c.kind))
    (hab : a.cmp b ≠ .gt) (hbc : b.cmp c ≠ .gt) : a.cmp c = (a.cmp b).then (b.cmp c) := by
  have hab' := rank_le_of_cmp hab
  have hbc' := rank_le_of_cmp hbc
  rcases Nat.lt_or_eq_of_le hab' with hlt | heq
  · rw [cmp_of_rank_lt hlt]
    exact cmp_of_rank_lt (by omega)
  · have hlt : b.kind.rank < c.kind.rank := by
      refine Nat.lt_of_le_of_ne hbc' fun hbc'' => h ?_
      exact ⟨ValueKind.rank_inj.1 heq, ValueKind.rank_inj.1 hbc''⟩
    rw [cmp_of_rank_lt hlt, cmp_of_rank_lt (by omega)]
    cases hcmp : a.cmp b with
    | lt => rfl
    | eq => rfl
    | gt => exact absurd hcmp hab

/-! ## Values that are no lists -/

theorem swap_cmp_of_ne_list {a : Value} (ha : a.kind ≠ .list) (b : Value) :
    b.cmp a = (a.cmp b).swap := by
  by_cases hkind : a.kind = b.kind
  · cases a with
    | list _ => exact absurd rfl ha
    | date d =>
      cases b <;> cases hkind
      simp only [cmp]
      exact Std.OrientedCmp.eq_swap
    | _ =>
      cases b <;> cases hkind
      simp only [cmp]
      exact Std.OrientedOrd.eq_swap
  · rw [cmp_of_kind_ne hkind, cmp_of_kind_ne (Ne.symm hkind)]
    exact Std.OrientedOrd.eq_swap

theorem trans_cmp_of_ne_list {a b c : Value} (ha : a.kind ≠ .list) (hab : a.cmp b ≠ .gt)
    (hbc : b.cmp c ≠ .gt) : a.cmp c = (a.cmp b).then (b.cmp c) := by
  by_cases hkind : a.kind = b.kind ∧ b.kind = c.kind
  · obtain ⟨hb, hc⟩ := hkind
    cases a with
    | list _ => exact absurd rfl ha
    | _ =>
      cases b <;> cases hb
      cases c <;> cases hc
      simp only [cmp] at hab hbc ⊢
      exact then_of_ne_gt hab hbc
  · exact trans_cmp_of_kind_ne hkind hab hbc

/-! ## Lists -/

mutual

theorem swap_cmp : ∀ a b : Value, b.cmp a = (a.cmp b).swap
  | list as, b => by
    cases b with
    | list bs =>
      rw [cmp, cmp]
      exact swap_cmpItems as bs
    | _ => rfl
  | null, b => swap_cmp_of_ne_list (by nofun) b
  | integer _, b => swap_cmp_of_ne_list (by nofun) b
  | float _, b => swap_cmp_of_ne_list (by nofun) b
  | text _, b => swap_cmp_of_ne_list (by nofun) b
  | boolean _, b => swap_cmp_of_ne_list (by nofun) b
  | date _, b => swap_cmp_of_ne_list (by nofun) b

theorem swap_cmpItems : ∀ as bs : List Value, cmpItems bs as = (cmpItems as bs).swap
  | [], bs => by cases bs <;> rfl
  | a :: as, [] => rfl
  | a :: as, b :: bs => by
    rw [cmpItems, cmpItems, swap_cmp a b, swap_cmpItems as bs, Ordering.swap_then]

end

mutual

theorem trans_cmp : ∀ {a b c : Value}, a.cmp b ≠ .gt → b.cmp c ≠ .gt →
    a.cmp c = (a.cmp b).then (b.cmp c)
  | list as, b, c, hab, hbc => by
    by_cases hkind : (list as).kind = b.kind ∧ b.kind = c.kind
    · obtain ⟨hb, hc⟩ := hkind
      cases b <;> cases hb
      cases c <;> cases hc
      rw [cmp] at hab hbc
      rw [cmp, cmp, cmp]
      exact trans_cmpItems hab hbc
    · exact trans_cmp_of_kind_ne hkind hab hbc
  | null, _, _, hab, hbc => trans_cmp_of_ne_list (by nofun) hab hbc
  | integer _, _, _, hab, hbc => trans_cmp_of_ne_list (by nofun) hab hbc
  | float _, _, _, hab, hbc => trans_cmp_of_ne_list (by nofun) hab hbc
  | text _, _, _, hab, hbc => trans_cmp_of_ne_list (by nofun) hab hbc
  | boolean _, _, _, hab, hbc => trans_cmp_of_ne_list (by nofun) hab hbc
  | date _, _, _, hab, hbc => trans_cmp_of_ne_list (by nofun) hab hbc

theorem trans_cmpItems : ∀ {as bs cs : List Value}, cmpItems as bs ≠ .gt → cmpItems bs cs ≠ .gt →
    cmpItems as cs = (cmpItems as bs).then (cmpItems bs cs)
  | [], bs, cs, hab, hbc => by
    cases bs with
    | nil => rfl
    | cons b bs =>
      cases cs with
      | nil => exact absurd rfl hbc
      | cons c cs => rfl
  | a :: as, bs, cs, hab, hbc => by
    cases bs with
    | nil => exact absurd rfl hab
    | cons b bs =>
      cases cs with
      | nil => exact absurd rfl hbc
      | cons c cs =>
        rw [cmpItems] at hab hbc ⊢
        rw [cmpItems, cmpItems]
        exact trans_then trans_cmp trans_cmpItems hab hbc

end

instance : Std.OrientedCmp cmp := ⟨fun {a b} => swap_cmp b a⟩

instance : Std.TransCmp cmp where
  isLE_trans {a b c} hab hbc := by
    rw [Ordering.isLE_iff_ne_gt] at hab hbc ⊢
    rw [trans_cmp hab hbc]
    cases hcmp : a.cmp b with
    | lt => nofun
    | eq => exact hbc
    | gt => exact absurd hcmp hab

instance : Std.LawfulEqCmp cmp where
  compare_self {a} := cmp_self a
  eq_of_compare {a b} h := eq_of_cmp a b h

/-- **Values are totally ordered, and their order tells their contents apart.**  Two values are tied
when they are the same: of one kind, floats of the same bits, lists alike item by item. -/
theorem cmp_orders_totally :
    (∀ a : Value, a.cmp a = .eq) ∧
    (∀ a b : Value, a.cmp b ≠ .gt → b.cmp a ≠ .gt → a = b) ∧
    (∀ a b c : Value, a.cmp b ≠ .gt → b.cmp c ≠ .gt → a.cmp c ≠ .gt) ∧
    (∀ a b : Value, a.cmp b ≠ .gt ∨ b.cmp a ≠ .gt) ∧
    (∀ a b : Value, a.cmp b = .eq ↔ a = b) ∧
    (∀ x y : Binary64, (float x).cmp (float y) = .eq ↔ x.bits = y.bits) ∧
    (∀ as bs : List Value, (list as).cmp (list bs) = .eq ↔
      List.Forall₂ (fun a b => a.cmp b = .eq) as bs) ∧
    (Equivalence fun a b : Value => (a == b) = true) ∧
    (∀ a b : Value, (a == b) = true ↔ a.cmp b = .eq) ∧
    (∀ a b : Value, (a == b) = true → a.kind = b.kind) ∧
    ∀ a : Value, a ≠ null → a.cmp null = .lt := by
  refine ⟨cmp_self, ?_, ?_, ?_, fun a b => cmp_eq_iff, ?_, ?_, ?_, ?_, ?_, fun a => cmp_null⟩
  · intro a b hab hba
    have hab' := Ordering.isLE_iff_ne_gt.2 hab
    have hba' := Ordering.isLE_iff_ne_gt.2 hba
    exact Std.LawfulEqCmp.eq_of_compare (Std.OrientedCmp.isLE_antisymm hab' hba')
  · intro a b c hab hbc
    have hab' := Ordering.isLE_iff_ne_gt.2 hab
    have hbc' := Ordering.isLE_iff_ne_gt.2 hbc
    exact Ordering.isLE_iff_ne_gt.1 (Std.TransCmp.isLE_trans hab' hbc')
  · intro a b
    rw [swap_cmp a b]
    cases a.cmp b with
    | lt => exact .inl nofun
    | eq => exact .inl nofun
    | gt => exact .inr nofun
  · intro x y
    rw [cmp_eq_iff, float.injEq]
    exact ⟨fun h => congrArg Binary64.bits h, fun h => by cases x; cases y; exact congrArg _ h⟩
  · intro as bs
    simp only [cmp_eq_iff, List.forall₂_eq_eq_eq, list.injEq]
  · refine ⟨fun a => beq_self_eq_true a, fun {a b} h => ?_, fun {a b c} hab hbc => ?_⟩
    · rw [beq_iff_eq] at h ⊢
      exact h.symm
    · rw [beq_iff_eq] at hab hbc ⊢
      exact hab.trans hbc
  · intro a b
    rw [beq_iff_eq, cmp_eq_iff]
  · intro a b h
    exact congrArg kind (beq_iff_eq.1 h)

end Value

end EntityStore
