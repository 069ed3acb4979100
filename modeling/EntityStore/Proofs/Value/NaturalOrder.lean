import EntityStore.Proofs.Value.Comparison

/-!
# The natural order within the total order

Both orders look at the first place where two values differ, and go down into lists to find it.
Where the two meet in one kind or `null` is among them, the orders agree.  Where they are of two
kinds the natural order fails, and the total order goes by the rank of the kinds.

    a.compare b = .ok o → a.cmp b = o                                          (cmp_of_compare)
    a.compare b = .ok .eq ↔ a = b                                           (compare_eq_ok_eq_iff)
    DifferAt a b x y → a.compare b = x.compare y ∧ a.cmp b = x.cmp y
                                                          (compare_of_differAt, cmp_of_differAt)
    a.compare b = .error failure ↔ ∃ x y, DifferAt a b x y ∧ Clash x y ∧
      failure = .incomparable x.kind y.kind                               (compare_eq_error_iff)
-/

namespace EntityStore.Value

/-- Two values differ, and at the first place where they do one has `x` and the other `y`.  A list
and a longer one that starts like it differ, but at no place where both have something. -/
inductive DifferAt : Value → Value → Value → Value → Prop
  | here {x y : Value} (hne : x ≠ y) (hlist : ¬ (x.kind = .list ∧ y.kind = .list)) :
    DifferAt x y x y
  | head {a b x y : Value} (h : DifferAt a b x y) (as bs : List Value) :
    DifferAt (list (a :: as)) (list (b :: bs)) x y
  | tail {as bs : List Value} {x y : Value} (a : Value) (h : DifferAt (list as) (list bs) x y) :
    DifferAt (list (a :: as)) (list (a :: bs)) x y

/-- Values of two kinds, neither of them `null`. -/
def Clash (x y : Value) : Prop := x ≠ null ∧ y ≠ null ∧ x.kind ≠ y.kind

instance (x y : Value) : Decidable (Clash x y) := inferInstanceAs (Decidable (_ ∧ _ ∧ _))

/-! ## Where the natural order does not fail -/

mutual

theorem cmp_of_compare : ∀ {a b : Value} {o : Ordering}, a.compare b = .ok o → a.cmp b = o
  | null, b, o, h => by cases b <;> cases h <;> rfl
  | integer n, b, o, h => by cases b <;> cases h <;> rfl
  | float x, b, o, h => by cases b <;> cases h <;> rfl
  | text s, b, o, h => by cases b <;> cases h <;> rfl
  | boolean x, b, o, h => by cases b <;> cases h <;> rfl
  | date d, b, o, h => by cases b <;> cases h <;> rfl
  | list as, b, o, h => by
    cases b with
    | list bs => exact cmpItems_of_compareItems h
    | _ => cases h <;> rfl

theorem cmpItems_of_compareItems : ∀ {as bs : List Value} {o : Ordering},
    compareItems as bs = .ok o → cmpItems as bs = o
  | [], bs, o, h => by cases bs <;> cases h <;> rfl
  | a :: as, [], o, h => by cases h; rfl
  | a :: as, b :: bs, o, h => by
    rw [compareItems_cons, breakTie_eq_ok_iff] at h
    rw [cmpItems]
    rcases h with ⟨htie, ho⟩ | ⟨ho, hne⟩
    · rw [cmp_of_compare htie, cmpItems_of_compareItems ho]
      rfl
    · rw [cmp_of_compare ho]
      cases o with
      | lt => rfl
      | eq => exact absurd rfl hne
      | gt => rfl

end

mutual

theorem compare_self : ∀ a : Value, a.compare a = .ok .eq
  | null => rfl
  | integer n => congrArg Except.ok (cmp_self (integer n))
  | float x => congrArg Except.ok (cmp_self (float x))
  | text s => congrArg Except.ok (cmp_self (text s))
  | boolean x => congrArg Except.ok (cmp_self (boolean x))
  | date d => congrArg Except.ok (cmp_self (date d))
  | list as => compareItems_self as

theorem compareItems_self : ∀ as : List Value, compareItems as as = .ok .eq
  | [] => rfl
  | a :: as => by
    rw [compareItems_cons, compare_self a, compareItems_self as]
    rfl

end

theorem compare_eq_ok_eq_iff {a b : Value} : a.compare b = .ok .eq ↔ a = b := by
  constructor
  · intro h
    exact cmp_eq_iff.1 (cmp_of_compare h)
  · rintro rfl
    exact compare_self a

/-! ## The first place that differs -/

theorem DifferAt.ne {a b x y : Value} (h : DifferAt a b x y) : x ≠ y := by
  induction h with
  | here hne _ => exact hne
  | head _ _ _ ih => exact ih
  | tail _ _ ih => exact ih

theorem compare_of_differAt {a b x y : Value} (h : DifferAt a b x y) :
    a.compare b = x.compare y := by
  induction h with
  | here => rfl
  | @head a b x y h as bs ih =>
    show breakTie (a.compare b) (compareItems as bs) = _
    rw [ih]
    unfold breakTie
    split
    · next htie => exact absurd (compare_eq_ok_eq_iff.1 htie) h.ne
    · rfl
  | @tail as bs x y a h ih =>
    show breakTie (a.compare a) (compareItems as bs) = _
    rw [compare_self]
    exact ih

theorem cmp_of_differAt {a b x y : Value} (h : DifferAt a b x y) : a.cmp b = x.cmp y := by
  induction h with
  | here => rfl
  | @head a b x y h as bs ih =>
    have hne : x.cmp y ≠ .eq := fun htie => h.ne (cmp_eq_iff.1 htie)
    rw [cmp, cmpItems, ih]
    cases hcmp : x.cmp y with
    | lt => rfl
    | eq => exact absurd hcmp hne
    | gt => rfl
  | @tail as bs x y a h ih =>
    rw [cmp] at ih
    rw [cmp, cmpItems, cmp_self]
    exact ih

theorem compare_of_clash {x y : Value} (h : Clash x y) :
    x.compare y = .error (.incomparable x.kind y.kind) := by
  obtain ⟨hx, hy, hkind⟩ := h
  cases x <;> cases y <;> first | rfl | exact absurd rfl hx | exact absurd rfl hy |
    exact absurd rfl hkind

theorem clash_of_compare {a b : Value} {failure : Failure}
    (hlist : ¬ (a.kind = .list ∧ b.kind = .list)) (h : a.compare b = .error failure) :
    Clash a b ∧ failure = .incomparable a.kind b.kind := by
  cases a <;> cases b <;> first
    | exact absurd ⟨rfl, rfl⟩ hlist
    | cases h <;> exact ⟨⟨nofun, nofun, nofun⟩, rfl⟩

/-- Values that are not both lists clash themselves. -/
theorem exists_differAt_here {a b : Value} {failure : Failure}
    (hlist : ¬ (a.kind = .list ∧ b.kind = .list)) (h : a.compare b = .error failure) :
    ∃ x y, DifferAt a b x y ∧ Clash x y ∧ failure = .incomparable x.kind y.kind := by
  obtain ⟨hclash, hfailure⟩ := clash_of_compare hlist h
  have hne : a ≠ b := by
    rintro rfl
    exact hclash.2.2 rfl
  exact ⟨a, b, .here hne hlist, hclash, hfailure⟩

mutual

theorem exists_differAt : ∀ {a b : Value} {failure : Failure}, a.compare b = .error failure →
    ∃ x y, DifferAt a b x y ∧ Clash x y ∧ failure = .incomparable x.kind y.kind
  | list as, b, _, h => by
    cases b with
    | list bs => exact exists_differAt_items h
    | _ => exact exists_differAt_here (fun hlist => nomatch hlist.2) h
  | null, _, _, h => exists_differAt_here (fun hlist => nomatch hlist.1) h
  | integer _, _, _, h => exists_differAt_here (fun hlist => nomatch hlist.1) h
  | float _, _, _, h => exists_differAt_here (fun hlist => nomatch hlist.1) h
  | text _, _, _, h => exists_differAt_here (fun hlist => nomatch hlist.1) h
  | boolean _, _, _, h => exists_differAt_here (fun hlist => nomatch hlist.1) h
  | date _, _, _, h => exists_differAt_here (fun hlist => nomatch hlist.1) h

theorem exists_differAt_items : ∀ {as bs : List Value} {failure : Failure},
    compareItems as bs = .error failure →
    ∃ x y, DifferAt (list as) (list bs) x y ∧ Clash x y ∧ failure = .incomparable x.kind y.kind
  | [], bs, failure, h => by cases bs <;> cases h
  | a :: as, [], failure, h => by cases h
  | a :: as, b :: bs, failure, h => by
    rw [compareItems_cons, breakTie_eq_error_iff] at h
    rcases h with h | ⟨htie, h⟩
    · obtain ⟨x, y, hdiffer, hclash⟩ := exists_differAt h
      exact ⟨x, y, hdiffer.head as bs, hclash⟩
    · obtain rfl := compare_eq_ok_eq_iff.1 htie
      obtain ⟨x, y, hdiffer, hclash⟩ := exists_differAt_items h
      exact ⟨x, y, hdiffer.tail a, hclash⟩

end

theorem compare_eq_error_iff {a b : Value} {failure : Failure} :
    a.compare b = .error failure ↔
      ∃ x y, DifferAt a b x y ∧ Clash x y ∧ failure = .incomparable x.kind y.kind := by
  constructor
  · exact exists_differAt
  · rintro ⟨x, y, hdiffer, hclash, rfl⟩
    rw [compare_of_differAt hdiffer]
    exact compare_of_clash hclash

/-- Kinds that clash behind the first place that differs are not met. -/
example : (list [null, boolean true]).compare (list [integer 1, text "a"]) = .ok .gt := rfl

/-- The two directions fail together. -/
theorem exists_error_swap {a b : Value} (h : ∃ failure, a.compare b = .error failure) :
    ∃ failure, b.compare a = .error failure := by
  obtain ⟨failure, hab⟩ := h
  cases hba : b.compare a with
  | error failure' => exact ⟨failure', rfl⟩
  | ok o =>
    rw [swap_compare hba] at hab
    cases hab

/-- **The natural order is a coherent part of the total order.**  Where it does not fail the two
agree; it fails in both directions or in none, exactly where the first place that differs has values
of two kinds, and then the total order goes by the rank of these; and what it finds in order stays
so along a chain. -/
theorem compare_within_total_order :
    (∀ (a b : Value) (o : Ordering), a.compare b = .ok o → a.cmp b = o) ∧
    (∀ a b : Value, (∃ failure, b.compare a = .error failure) ↔
      ∃ failure, a.compare b = .error failure) ∧
    (∀ (a b : Value) (o : Ordering), a.compare b = .ok o → b.compare a = .ok o.swap) ∧
    (∀ a b : Value, a.compare b = .ok .eq ↔ (a == b) = true) ∧
    (∀ (a b : Value) (failure : Failure), a.compare b = .error failure ↔
      ∃ x y, DifferAt a b x y ∧ Clash x y ∧ failure = .incomparable x.kind y.kind) ∧
    (∀ a b x y : Value, DifferAt a b x y → Clash x y →
      a.cmp b = Ord.compare x.kind.rank y.kind.rank) ∧
    ∀ (a b c : Value) (o o' : Ordering), a.compare b = .ok o → b.compare c = .ok o' →
      o ≠ .gt → o' ≠ .gt →
      ∃ o'', a.compare c = .ok o'' ∧ o'' ≠ .gt ∧ (o = .lt ∨ o' = .lt → o'' = .lt) := by
  refine ⟨fun a b o => cmp_of_compare, ?_, fun a b o => swap_compare, ?_,
    fun a b failure => compare_eq_error_iff, ?_, ?_⟩
  · intro a b
    exact ⟨exists_error_swap, exists_error_swap⟩
  · intro a b
    rw [compare_eq_ok_eq_iff, beq_iff_eq]
  · intro a b x y hdiffer hclash
    rw [cmp_of_differAt hdiffer]
    exact cmp_of_kind_ne hclash.2.2
  · intro a b c o o' hab hbc ho ho'
    refine ⟨o.then o', trans_compare hab hbc ho ho', ?_⟩
    cases o with
    | lt => exact ⟨nofun, fun _ => rfl⟩
    | eq => exact ⟨ho', fun h => h.resolve_left nofun⟩
    | gt => exact absurd rfl ho

end EntityStore.Value
