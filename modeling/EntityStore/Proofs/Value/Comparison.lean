import EntityStore.Proofs.Outcome
import EntityStore.Proofs.Value.TotalOrder
import EntityStore.Value.Comparison

/-!
# Laws of the natural order

A comparison that may fail is coherent when its two directions agree and what is in order stays in
order along a chain, so that two values need no comparison of their own once a third lies between
them.  The natural order of values is coherent, and coherence is kept by comparing through a
projection, by turning the order around, and by breaking ties with a second comparison.

    a.compare b = .ok o → b.compare a = .ok o.swap                            (Coherent.swap)
    a.compare b = .ok o → b.compare c = .ok o' → o ≠ .gt → o' ≠ .gt →
      a.compare c = .ok (o.then o')                                           (Coherent.trans)
    Coherent Value.compare                                              (Value.coherent_compare)
    a.compare b = .error failure → failure.category = .typeMismatch
                                                                        (Value.category_of_compare)
-/

namespace EntityStore

/-- The direction of each comparison and the composition of two of them that are in order. -/
structure Coherent {α : Type} (cmp : α → α → Except Failure Ordering) : Prop where
  swap : ∀ {a b : α} {o : Ordering}, cmp a b = .ok o → cmp b a = .ok o.swap
  trans : ∀ {a b c : α} {o o' : Ordering}, cmp a b = .ok o → cmp b c = .ok o' →
    o ≠ .gt → o' ≠ .gt → cmp a c = .ok (o.then o')

/-- The second comparison decides where the first finds a tie. -/
def breakTie (first second : Except Failure Ordering) : Except Failure Ordering :=
  match first with
  | .ok .eq => second
  | other => other

/-! ## Breaking ties -/

theorem breakTie_eq_ok_iff {first second : Except Failure Ordering} {o : Ordering} :
    breakTie first second = .ok o ↔
      (first = .ok .eq ∧ second = .ok o) ∨ (first = .ok o ∧ o ≠ .eq) := by
  unfold breakTie
  split
  · simp; rintro rfl h; exact absurd rfl h
  · next hne =>
    constructor
    · rintro rfl
      right
      refine ⟨rfl, ?_⟩
      rintro rfl
      exact hne rfl
    · rintro (⟨h, -⟩ | ⟨h, -⟩)
      · exact absurd h hne
      · exact h

theorem breakTie_eq_error_iff {first second : Except Failure Ordering} {failure : Failure} :
    breakTie first second = .error failure ↔
      first = .error failure ∨ (first = .ok .eq ∧ second = .error failure) := by
  unfold breakTie
  split
  · simp
  · next hne =>
    refine ⟨.inl, ?_⟩
    rintro (h | ⟨h, -⟩)
    · exact h
    · exact absurd h hne

theorem error_of_breakTie {first second : Except Failure Ordering} {failure : Failure}
    (h : breakTie first second = .error failure) :
    first = .error failure ∨ second = .error failure :=
  (breakTie_eq_error_iff.1 h).imp_right And.right

theorem swap_breakTie {x x' y y' : Except Failure Ordering}
    (hx : ∀ {o}, x = .ok o → x' = .ok o.swap) (hy : ∀ {o}, y = .ok o → y' = .ok o.swap)
    {o : Ordering} (h : breakTie x y = .ok o) : breakTie x' y' = .ok o.swap := by
  rw [breakTie_eq_ok_iff] at h ⊢
  rcases h with ⟨htie, ho⟩ | ⟨ho, hne⟩
  · exact .inl ⟨hx htie, hy ho⟩
  · refine .inr ⟨hx ho, ?_⟩
    cases o
    · decide
    · exact absurd rfl hne
    · decide

theorem trans_breakTie {x x' x'' y y' y'' : Except Failure Ordering}
    (hx : ∀ {o o'}, x = .ok o → x' = .ok o' → o ≠ .gt → o' ≠ .gt → x'' = .ok (o.then o'))
    (hy : ∀ {o o'}, y = .ok o → y' = .ok o' → o ≠ .gt → o' ≠ .gt → y'' = .ok (o.then o'))
    {o o' : Ordering} (h : breakTie x y = .ok o) (h' : breakTie x' y' = .ok o')
    (ho : o ≠ .gt) (ho' : o' ≠ .gt) : breakTie x'' y'' = .ok (o.then o') := by
  have lt_of {o : Ordering} (hne : o ≠ .eq) (hgt : o ≠ .gt) : o = .lt := by
    cases o
    · rfl
    · exact absurd rfl hne
    · exact absurd rfl hgt
  rw [breakTie_eq_ok_iff] at h h' ⊢
  rcases h with ⟨htie, hlow⟩ | ⟨hhigh, hne⟩
  · rcases h' with ⟨htie', hlow'⟩ | ⟨hhigh', hne'⟩
    · -- Both ties are broken below.
      exact .inl ⟨hx htie htie' (by decide) (by decide), hy hlow hlow' ho ho'⟩
    · obtain rfl := lt_of hne' ho'
      have hx'' := hx htie hhigh' (by decide) (by decide)
      right
      cases o
      · exact ⟨hx'', by decide⟩
      · exact ⟨hx'', by decide⟩
      · exact absurd rfl ho
  · obtain rfl := lt_of hne ho
    right
    rcases h' with ⟨htie', -⟩ | ⟨hhigh', -⟩
    · have hx'' := hx hhigh htie' (by decide) (by decide)
      exact ⟨hx'', Ordering.noConfusion⟩
    · exact ⟨hx hhigh hhigh' (by decide) ho', Ordering.noConfusion⟩

namespace Coherent

variable {α β : Type} {cmp cmp' : α → α → Except Failure Ordering}

theorem breakTie (h : Coherent cmp) (h' : Coherent cmp') :
    Coherent fun a b => EntityStore.breakTie (cmp a b) (cmp' a b) where
  swap := swap_breakTie h.swap h'.swap
  trans := trans_breakTie h.trans h'.trans

theorem comap (f : β → α) (h : Coherent cmp) : Coherent fun a b => cmp (f a) (f b) where
  swap := h.swap
  trans := h.trans

theorem reverse (h : Coherent cmp) : Coherent fun a b => (cmp a b).map Ordering.swap where
  swap := by
    intro a b o hab
    obtain ⟨p, hp, rfl⟩ := map_eq_ok.1 hab
    rw [h.swap hp]
    rfl
  trans := by
    intro a b c o o' hab hbc ho ho'
    obtain ⟨p, hp, rfl⟩ := map_eq_ok.1 hab
    obtain ⟨q, hq, rfl⟩ := map_eq_ok.1 hbc
    -- Seen from `c`, the comparison is in order.
    have hca : cmp c a = .ok (q.swap.then p.swap) := h.trans (h.swap hq) (h.swap hp) ho' ho
    rw [h.swap hca]
    cases p <;> cases q <;> simp_all [Except.map]

end Coherent

/-! ## Values -/

/-- Any two values of the kind can be compared. -/
def ValueKind.isScalar : ValueKind → Bool
  | null | list => false
  | _ => true

namespace Value

theorem compareItems_cons (a b : Value) (as bs : List Value) :
    compareItems (a :: as) (b :: bs) = breakTie (compare a b) (compareItems as bs) := rfl

/-! ### `null` -/

/-- Nothing but `null` is behind `null`. -/
theorem eq_null_of_null_compare {b : Value} {o : Ordering} (h : null.compare b = .ok o)
    (ho : o ≠ .gt) : b = null := by
  cases b <;> cases h
  · rfl
  all_goals exact absurd rfl ho

theorem compare_null {a : Value} (h : a ≠ null) : a.compare null = .ok .lt := by
  cases a
  · exact absurd rfl h
  all_goals rfl

theorem null_compare {a : Value} (h : a ≠ null) : null.compare a = .ok .gt := by
  cases a
  · exact absurd rfl h
  all_goals rfl

theorem trans_null_middle {a c : Value} {o o' : Ordering} (hab : a.compare null = .ok o)
    (hbc : null.compare c = .ok o') (ho' : o' ≠ .gt) : a.compare c = .ok (o.then o') := by
  obtain rfl := eq_null_of_null_compare hbc ho'
  cases hbc
  rw [hab]
  cases o <;> rfl

theorem trans_null_last {a b : Value} {o o' : Ordering} (hab : a.compare b = .ok o)
    (hbc : b.compare null = .ok o') (ho : o ≠ .gt) : a.compare null = .ok (o.then o') := by
  by_cases hb : b = null
  · subst hb
    exact trans_null_middle hab hbc (by cases hbc; decide)
  · rw [compare_null hb] at hbc
    cases hbc
    have ha : a ≠ null := by
      rintro rfl
      exact hb (eq_null_of_null_compare hab ho)
    rw [compare_null ha]
    cases o
    · rfl
    · rfl
    · exact absurd rfl ho

/-! ### Values that are no lists -/

theorem kind_eq_of_compare {a b : Value} {o : Ordering} (h : a.compare b = .ok o) (ha : a ≠ null)
    (hb : b ≠ null) : a.kind = b.kind := by
  cases a <;> cases b <;> first | rfl | exact absurd rfl ha | exact absurd rfl hb | cases h

/-- Within a kind the two orders are one. -/
theorem compare_eq_ok_cmp {a b : Value} (hkind : a.kind = b.kind) (hlist : a.kind ≠ .list) :
    a.compare b = .ok (a.cmp b) := by
  cases a <;> cases b <;> first | rfl | exact absurd rfl hlist | cases hkind

theorem swap_compare_of_ne_list {a b : Value} {o : Ordering} (hlist : a.kind ≠ .list)
    (h : a.compare b = .ok o) : b.compare a = .ok o.swap := by
  by_cases ha : a = null
  · subst ha
    cases b <;> cases h <;> rfl
  · by_cases hb : b = null
    · subst hb
      rw [compare_null ha] at h
      cases h
      exact null_compare ha
    · have hkind := kind_eq_of_compare h ha hb
      rw [compare_eq_ok_cmp hkind hlist] at h
      cases h
      rw [compare_eq_ok_cmp hkind.symm (hkind ▸ hlist), swap_cmp a b]

theorem trans_compare_of_ne_list {a b c : Value} {o o' : Ordering} (hlist : a.kind ≠ .list)
    (hab : a.compare b = .ok o) (hbc : b.compare c = .ok o') (ho : o ≠ .gt) (ho' : o' ≠ .gt) :
    a.compare c = .ok (o.then o') := by
  by_cases hb : b = null
  · subst hb
    exact trans_null_middle hab hbc ho'
  · by_cases hc : c = null
    · subst hc
      exact trans_null_last hab hbc ho
    · have ha : a ≠ null := by
        rintro rfl
        exact hb (eq_null_of_null_compare hab ho)
      have hkind := kind_eq_of_compare hab ha hb
      have hkind' := kind_eq_of_compare hbc hb hc
      rw [compare_eq_ok_cmp hkind hlist] at hab
      rw [compare_eq_ok_cmp hkind' (hkind ▸ hlist)] at hbc
      cases hab
      cases hbc
      rw [compare_eq_ok_cmp (hkind.trans hkind') hlist, trans_cmp ho ho']

/-! ### All values -/

mutual

theorem swap_compare : ∀ {a b : Value} {o : Ordering},
    a.compare b = .ok o → b.compare a = .ok o.swap
  | list as, b, o, h => by
    cases b with
    | null => cases h; rfl
    | list bs => exact swap_compareItems h
    | _ => cases h
  | null, _, _, h => swap_compare_of_ne_list (by nofun) h
  | integer _, _, _, h => swap_compare_of_ne_list (by nofun) h
  | float _, _, _, h => swap_compare_of_ne_list (by nofun) h
  | text _, _, _, h => swap_compare_of_ne_list (by nofun) h
  | boolean _, _, _, h => swap_compare_of_ne_list (by nofun) h
  | date _, _, _, h => swap_compare_of_ne_list (by nofun) h

theorem swap_compareItems : ∀ {as bs : List Value} {o : Ordering},
    compareItems as bs = .ok o → compareItems bs as = .ok o.swap
  | [], bs, o, h => by cases bs <;> cases h <;> rfl
  | a :: as, [], o, h => by cases h; rfl
  | a :: as, b :: bs, o, h => by
    rw [compareItems_cons] at h ⊢
    exact swap_breakTie swap_compare swap_compareItems h

end

mutual

theorem trans_compare : ∀ {a b c : Value} {o o' : Ordering},
    a.compare b = .ok o → b.compare c = .ok o' → o ≠ .gt → o' ≠ .gt →
      a.compare c = .ok (o.then o')
  | list as, b, c, o, o', hab, hbc, ho, ho' => by
    cases b with
    | null => exact trans_null_middle hab hbc ho'
    | list bs =>
      cases c with
      | null => exact trans_null_last hab hbc ho
      | list cs => exact trans_compareItems hab hbc ho ho'
      | _ => cases hbc
    | _ => cases hab
  | null, _, _, _, _, hab, hbc, ho, ho' => trans_compare_of_ne_list (by nofun) hab hbc ho ho'
  | integer _, _, _, _, _, hab, hbc, ho, ho' => trans_compare_of_ne_list (by nofun) hab hbc ho ho'
  | float _, _, _, _, _, hab, hbc, ho, ho' => trans_compare_of_ne_list (by nofun) hab hbc ho ho'
  | text _, _, _, _, _, hab, hbc, ho, ho' => trans_compare_of_ne_list (by nofun) hab hbc ho ho'
  | boolean _, _, _, _, _, hab, hbc, ho, ho' => trans_compare_of_ne_list (by nofun) hab hbc ho ho'
  | date _, _, _, _, _, hab, hbc, ho, ho' => trans_compare_of_ne_list (by nofun) hab hbc ho ho'

theorem trans_compareItems : ∀ {as bs cs : List Value} {o o' : Ordering},
    compareItems as bs = .ok o → compareItems bs cs = .ok o' → o ≠ .gt → o' ≠ .gt →
      compareItems as cs = .ok (o.then o')
  | [], bs, cs, o, o', hab, hbc, ho, ho' => by
    cases bs with
    | nil => cases hab; exact hbc
    | cons b bs =>
      cases cs with
      | nil => cases hbc; exact absurd rfl ho'
      | cons c cs => cases hab; rfl
  | a :: as, bs, cs, o, o', hab, hbc, ho, ho' => by
    cases bs with
    | nil => cases hab; exact absurd rfl ho
    | cons b bs =>
      cases cs with
      | nil => cases hbc; exact absurd rfl ho'
      | cons c cs =>
        rw [compareItems_cons] at hab hbc ⊢
        exact trans_breakTie trans_compare trans_compareItems hab hbc ho ho'

end

theorem coherent_compare : Coherent Value.compare := ⟨swap_compare, trans_compare⟩

/-! ### Failures -/

mutual

/-- Values can only fail to be compared because of their kinds. -/
theorem category_of_compare : ∀ {a b : Value} {failure : Failure},
    a.compare b = .error failure → failure.category = .typeMismatch
  | null, b, failure, h => by cases b <;> cases h
  | integer n, b, failure, h => by cases b <;> cases h <;> rfl
  | float x, b, failure, h => by cases b <;> cases h <;> rfl
  | text s, b, failure, h => by cases b <;> cases h <;> rfl
  | boolean x, b, failure, h => by cases b <;> cases h <;> rfl
  | date d, b, failure, h => by cases b <;> cases h <;> rfl
  | list as, b, failure, h => by
    cases b with
    | list bs => exact category_of_compareItems h
    | _ => cases h <;> rfl

theorem category_of_compareItems : ∀ {as bs : List Value} {failure : Failure},
    compareItems as bs = .error failure → failure.category = .typeMismatch
  | [], bs, failure, h => by cases bs <;> cases h
  | a :: as, [], failure, h => by cases h
  | a :: as, b :: bs, failure, h => by
    rw [compareItems_cons] at h
    rcases error_of_breakTie h with h | h
    · exact category_of_compare h
    · exact category_of_compareItems h

end

/-- The value is `null` or of the kind. -/
def IsNullOr (kind : ValueKind) (v : Value) : Prop := v = null ∨ v.kind = kind

instance (kind : ValueKind) (v : Value) : Decidable (v.IsNullOr kind) :=
  inferInstanceAs (Decidable (_ ∨ _))

theorem exists_compare {kind : ValueKind} {a b : Value} (hkind : kind.isScalar = true)
    (ha : a.IsNullOr kind) (hb : b.IsNullOr kind) : ∃ o, a.compare b = .ok o := by
  rcases ha with rfl | rfl
  · cases b <;> exact ⟨_, rfl⟩
  · rcases hb with rfl | hb
    · cases a <;> exact ⟨_, rfl⟩
    · cases a with
      | null | list _ => cases hkind
      | _ =>
        cases b <;> cases hb
        exact ⟨_, rfl⟩

end Value

end EntityStore
