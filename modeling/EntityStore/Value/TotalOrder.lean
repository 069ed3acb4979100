import EntityStore.Value.Basic

/-!
# The total order of values

Values are ordered by kind first and by content within a kind: floats by the total order of their
bit patterns, text by code points, lists element by element.  This is the order of keys and sets.

    a.cmp b = .eq ↔ a = b                          (Value.cmp_eq_iff)

So a value equals no value of another kind, and two floats are equal only bit for bit.
-/

namespace EntityStore

namespace Value

mutual

def cmp : Value → Value → Ordering
  | integer a, integer b => compare a.toInt b.toInt
  | float a, float b => compare a.orderKey b.orderKey
  | text a, text b => compare a b
  | boolean a, boolean b => compare a b
  | date a, date b => a.cmp b
  | list as, list bs => cmpItems as bs
  | a, b => compare a.kind.rank b.kind.rank

/-- The first place that differs decides; of a list and a longer one that starts like it, the
shorter comes first. -/
def cmpItems : List Value → List Value → Ordering
  | [], [] => .eq
  | [], _ :: _ => .lt
  | _ :: _, [] => .gt
  | a :: as, b :: bs => (cmp a b).then (cmpItems as bs)

end

instance : Ord Value := ⟨cmp⟩

/-! ## Lemmas -/

mutual

theorem cmp_self : ∀ a : Value, cmp a a = .eq
  | null => by simp [cmp, kind, ValueKind.rank]
  | integer _ => by simp [cmp]
  | float _ => by simp [cmp]
  | text _ => by simp [cmp]
  | boolean b => by cases b <;> simp [cmp, compare]
  | date _ => by simp [cmp, Date.cmp_eq_iff]
  | list items => by rw [cmp]; exact cmpItems_self items

theorem cmpItems_self : ∀ as : List Value, cmpItems as as = .eq
  | [] => by simp [cmpItems]
  | a :: as => by rw [cmpItems, cmp_self a, cmpItems_self as]; rfl

end

mutual

theorem eq_of_cmp : ∀ a b : Value, cmp a b = .eq → a = b
  | null, b => by cases b <;> simp [cmp, kind, ValueKind.rank]
  | integer n, b => by
    cases b <;> simp [cmp, kind, ValueKind.rank, Int64.toInt_inj]
  | float x, b => by
    cases b <;> simp [cmp, kind, ValueKind.rank, Binary64.orderKey_inj]
  | text s, b => by
    cases b <;> simp [cmp, kind, ValueKind.rank]
  | boolean x, b => by
    cases b with
    | boolean y => cases x <;> cases y <;> simp [cmp, compare]
    | _ => simp [cmp, kind, ValueKind.rank]
  | date d, b => by
    cases b <;> simp [cmp, kind, ValueKind.rank, Date.cmp_eq_iff]
  | list as, b => by
    cases b with
    | list bs => intro h; rw [cmp] at h; rw [eq_of_cmpItems as bs h]
    | _ => simp [cmp, kind, ValueKind.rank]

theorem eq_of_cmpItems : ∀ as bs : List Value, cmpItems as bs = .eq → as = bs
  | [], bs => by cases bs <;> simp [cmpItems]
  | a :: as, bs => by
    cases bs with
    | nil => simp [cmpItems]
    | cons b bs =>
      intro h
      rw [cmpItems, Ordering.then_eq_eq] at h
      rw [eq_of_cmp a b h.1, eq_of_cmpItems as bs h.2]

end

theorem cmp_eq_iff {a b : Value} : cmp a b = .eq ↔ a = b :=
  ⟨eq_of_cmp a b, fun h => h ▸ cmp_self a⟩

instance : DecidableEq Value := fun _ _ => decidable_of_iff _ cmp_eq_iff

end Value

end EntityStore
