/-!
# Calendar dates

Days of the proleptic Gregorian calendar in the years that a date may have, ordered by the
calendar.
-/

namespace EntityStore

def isLeapYear (year : Int) : Bool := year % 4 = 0 ∧ (year % 100 ≠ 0 ∨ year % 400 = 0)

/-- Number of days of a month, `0` where there is no such month. -/
def daysInMonth (year : Int) : Nat → Nat
  | 1 | 3 | 5 | 7 | 8 | 10 | 12 => 31
  | 4 | 6 | 9 | 11 => 30
  | 2 => if isLeapYear year then 29 else 28
  | _ => 0

/-- The day exists and its year can be held. -/
def IsCalendarDay (year : Int) (month day : Nat) : Prop :=
  -262143 ≤ year ∧ year ≤ 262142 ∧ 1 ≤ day ∧ day ≤ daysInMonth year month

instance (year : Int) (month day : Nat) : Decidable (IsCalendarDay year month day) :=
  inferInstanceAs (Decidable (_ ∧ _ ∧ _ ∧ _))

structure Date where
  year : Int
  month : Nat
  day : Nat
  isCalendarDay : IsCalendarDay year month day
deriving DecidableEq

namespace Date

def ofParts? (year : Int) (month day : Nat) : Option Date :=
  if h : IsCalendarDay year month day then some ⟨year, month, day, h⟩ else none

/-- Earlier days come first. -/
def cmp (a b : Date) : Ordering :=
  (compare a.year b.year).then ((compare a.month b.month).then (compare a.day b.day))

/-! ## Lemmas -/

theorem ext' {a b : Date} (hy : a.year = b.year) (hm : a.month = b.month) (hd : a.day = b.day) :
    a = b := by
  cases a; cases b; simp_all

theorem ofParts?_self (d : Date) : ofParts? d.year d.month d.day = some d := by
  simp [ofParts?, d.isCalendarDay]

theorem month_le (d : Date) : d.month ≤ 12 := by
  have h := d.isCalendarDay.2.2
  unfold daysInMonth at h
  split at h <;> omega

theorem daysInMonth_le (year : Int) (month : Nat) : daysInMonth year month ≤ 31 := by
  unfold daysInMonth
  split <;> try split
  all_goals omega

theorem day_le (d : Date) : d.day ≤ 31 :=
  Nat.le_trans d.isCalendarDay.2.2.2 (daysInMonth_le d.year d.month)

theorem cmp_eq_iff {a b : Date} : a.cmp b = .eq ↔ a = b := by
  constructor
  · intro h
    simp only [cmp, Ordering.then_eq_eq, Nat.compare_eq_eq, Int.compare_eq_eq] at h
    exact ext' h.1 h.2.1 h.2.2
  · rintro rfl
    simp [cmp]

end Date

end EntityStore
