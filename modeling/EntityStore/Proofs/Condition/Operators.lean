import EntityStore.Proofs.Query.TypeFailures
import EntityStore.Proofs.Value.NaturalOrder

/-!
# The comparison operators of one field

Equality and membership ask whether two values are the same, the range operators ask for their
natural order.  The answers fit together because the natural order, where there is one, finds a tie
exactly between a value and itself.

    b ≠ .null → ask .eq b a r = .ok (decide (a.read r = b))                         (ask_eq)
    a.read r ≠ .null → (a.read r).compare b = .ok o →
      inRange operator b a r = .ok (operator.admits o)                   (inRange_of_compare)
    ask .isIn (.list members) a r = .ok (decide (a.read r ∈ members))             (ask_isIn)
    (∀ m ∈ members, m ≠ .null) →
      anyOf (members.map (ask .eq · a)) r = .ok (decide (a.read r ∈ members))  (anyOf_equals)
-/

namespace EntityStore

namespace Operator

/-- Of two values in order, one of three holds. -/
theorem count_admits (o : Ordering) : [lt.admits o, eq.admits o, gt.admits o].count true = 1 := by
  cases o <;> rfl

theorem admits_gte_iff (o : Ordering) :
    gte.admits o = true ↔ gt.admits o = true ∨ eq.admits o = true := by
  cases o <;> decide

theorem admits_lte_iff (o : Ordering) :
    lte.admits o = true ↔ lt.admits o = true ∨ eq.admits o = true := by
  cases o <;> decide

/-- The operand stands before a value that is greater. -/
theorem admits_gt_iff (o : Ordering) : gt.admits o = true ↔ o.swap = .lt := by
  cases o <;> decide

end Operator

namespace Filter

/-- What a comparison answers; where it cannot be built, that failure. -/
def ask (operator : Operator) (operand : Value) (accessor : Accessor) : Filter := fun r => do
  (← compare operator operand accessor) r

/-- One of several filters matches; they are asked from left to right. -/
def anyOf (fs : List Filter) : Filter := fs.foldr or fun _ => .ok false

variable {operator : Operator} {accessor : Accessor} {b : Value} {r : Record}

/-! ## Building -/

theorem ask_of_compare {f : Filter} (h : compare operator b accessor = .ok f) :
    ask operator b accessor = f := by
  funext r
  rw [ask, h]
  rfl

theorem compare_eq_ok_ask (h : operator.Allows b) :
    compare operator b accessor = .ok (ask operator b accessor) := by
  obtain ⟨f, hf⟩ := exists_compare_iff.2 h
  rw [ask_of_compare hf, hf]

theorem ask_eq (hb : b ≠ .null) : ask .eq b accessor r = .ok (decide (accessor.read r = b)) := by
  have hf : compare .eq b accessor = .ok fun r => .ok (decide (accessor.read r = b)) :=
    if_neg (mt Value.isNull_iff.1 hb)
  rw [ask_of_compare hf]

theorem ask_range (hb : b ≠ .null) (hrange : operator.isRange = true) :
    ask operator b accessor = inRange operator b accessor := by
  apply ask_of_compare
  cases operator with
  | eq | isIn => cases hrange
  | gt | gte | lt | lte => exact if_neg (mt Value.isNull_iff.1 hb)

theorem ask_isIn (members : List Value) (accessor : Accessor) (r : Record) :
    ask .isIn (.list members) accessor r = .ok (decide (accessor.read r ∈ members)) := by
  have hf : compare .isIn (.list members) accessor =
      .ok fun r => .ok (members.contains (accessor.read r)) := if_neg nofun
  rw [ask_of_compare hf, ← List.contains_eq_mem]

/-! ## Ranges -/

theorem inRange_null (h : accessor.read r = .null) : inRange operator b accessor r = .ok false := by
  unfold inRange
  dsimp only
  rw [if_pos (Value.isNull_iff.2 h)]

theorem inRange_of_compare {o : Ordering} (hb : b ≠ .null) (hv : accessor.read r ≠ .null)
    (h : (accessor.read r).compare b = .ok o) :
    inRange operator b accessor r = .ok (operator.admits o) := by
  have hkind : (accessor.read r).kind = b.kind := Value.kind_eq_of_compare h hv hb
  unfold inRange
  dsimp only
  rw [if_neg (mt Value.isNull_iff.1 hv), if_neg (not_not_intro hkind), h]
  rfl

/-- Where two values have no order, nothing can be said of a range: kinds that differ are noticed
before the comparison, kinds inside of lists by it. -/
theorem error_inRange {failure : Failure} (hv : accessor.read r ≠ .null)
    (h : (accessor.read r).compare b = .error failure) :
    ∃ failure', inRange operator b accessor r = .error failure' := by
  unfold inRange
  dsimp only
  rw [if_neg (mt Value.isNull_iff.1 hv)]
  split
  · exact ⟨_, rfl⟩
  · rw [h]
    exact ⟨failure, rfl⟩

/-! ## Membership -/

theorem anyOf_equals {members : List Value} (h : ∀ m ∈ members, m ≠ .null) :
    anyOf (members.map (ask .eq · accessor)) r = .ok (decide (accessor.read r ∈ members)) := by
  induction members with
  | nil => rfl
  | cons m members ih =>
    rw [List.forall_mem_cons] at h
    have hrest := ih h.2
    show or (ask .eq m accessor) (anyOf (members.map (ask .eq · accessor))) r = _
    unfold or
    rw [ask_eq h.1, hrest]
    show (if decide (accessor.read r = m) = true then .ok true
      else Except.ok (decide (accessor.read r ∈ members))) = _
    by_cases heq : accessor.read r = m
    · rw [if_pos (decide_eq_true heq), decide_eq_true (List.mem_cons.2 (.inl heq))]
    · have hmem : accessor.read r ∈ m :: members ↔ accessor.read r ∈ members := by
        rw [List.mem_cons, or_iff_right heq]
      rw [if_neg (mt of_decide_eq_true heq), decide_eq_decide.2 hmem]

/-! ## All operators -/

/-- **The operators of one field fit together.**  `null` is in no range and equals no operand.  Of
a value that has an order with the operand exactly one of less, equal and greater holds, and the
inclusive ranges are the exclusive ones with equality.  Where there is no order all ranges fail, but
equality is decided.  Membership is being one of the members. -/
theorem operators_fit (accessor : Accessor) {b : Value} (hb : b ≠ .null) (r : Record) :
    (∀ op, op ≠ .isIn → compare op b accessor = .ok (ask op b accessor)) ∧
    (accessor.read r = .null → ∀ op, op ≠ .isIn → ask op b accessor r = .ok false) ∧
    (accessor.read r ≠ .null → (∃ o, (accessor.read r).compare b = .ok o) →
      ∃ holds : Operator → Bool, (∀ op, op ≠ .isIn → ask op b accessor r = .ok (holds op)) ∧
        [holds .lt, holds .eq, holds .gt].count true = 1 ∧
        (holds .gte = true ↔ holds .gt = true ∨ holds .eq = true) ∧
        (holds .lte = true ↔ holds .lt = true ∨ holds .eq = true) ∧
        (holds .gt = true ↔ b.compare (accessor.read r) = .ok .lt)) ∧
    (accessor.read r ≠ .null → (∃ failure, (accessor.read r).compare b = .error failure) →
      ask .eq b accessor r = .ok false ∧
      ∀ op, op.isRange = true →
        ∃ failure, ask op b accessor r = .error failure ∧ failure.category = .typeMismatch) ∧
    ∀ members,
      compare .isIn (.list members) accessor = .ok (ask .isIn (.list members) accessor) ∧
      ask .isIn (.list members) accessor r = .ok (decide (accessor.read r ∈ members)) ∧
      ((∀ m ∈ members, m ≠ .null) →
        ask .isIn (.list members) accessor r = anyOf (members.map (ask .eq · accessor)) r) := by
  refine ⟨?_, ?_, ?_, ?_, ?_⟩
  · intro op hop
    exact compare_eq_ok_ask ⟨hb, fun h => absurd h hop⟩
  · intro hv op hop
    cases op with
    | eq =>
      rw [ask_eq hb, hv]
      exact congrArg Except.ok (decide_eq_false hb.symm)
    | isIn => exact absurd rfl hop
    | gt | gte | lt | lte => rw [ask_range hb rfl, inRange_null hv]
  · rintro hv ⟨o, ho⟩
    have heq : accessor.read r = b ↔ o = .eq := by
      rw [← Value.compare_eq_ok_eq_iff, ho, Except.ok.injEq]
    refine ⟨(·.admits o), ?_, Operator.count_admits o, Operator.admits_gte_iff o,
      Operator.admits_lte_iff o, ?_⟩
    · intro op hop
      cases op with
      | eq =>
        rw [ask_eq hb, decide_eq_decide.2 heq]
        cases o <;> rfl
      | isIn => exact absurd rfl hop
      | gt | gte | lt | lte => rw [ask_range hb rfl, inRange_of_compare hb hv ho]
    · rw [Value.swap_compare ho, Except.ok.injEq]
      exact Operator.admits_gt_iff o
  · rintro hv ⟨failure, h⟩
    refine ⟨?_, ?_⟩
    · have hne : accessor.read r ≠ b := by
        intro heq
        rw [Value.compare_eq_ok_eq_iff.2 heq] at h
        cases h
      rw [ask_eq hb]
      exact congrArg Except.ok (decide_eq_false hne)
    · intro op hop
      rw [ask_range hb hop]
      obtain ⟨failure', hfailure⟩ : ∃ failure', inRange op b accessor r = .error failure' :=
        error_inRange hv h
      exact ⟨failure', hfailure, category_of_inRange hfailure⟩
  · intro members
    have hallows : Operator.isIn.Allows (.list members) := ⟨nofun, fun _ => rfl⟩
    refine ⟨compare_eq_ok_ask hallows, ask_isIn members accessor r, ?_⟩
    intro hmembers
    rw [ask_isIn, anyOf_equals hmembers]

/-- Of two lists the first place that differs decides, and behind it kinds may clash. -/
theorem operators_fit_lists :
    Value.list [.integer 1, .text "a"] ≠ .null ∧ ∃ holds : Operator → Bool,
      (∀ op, op ≠ .isIn → ask op (.list [.integer 1, .text "a"])
        ⟨"ratings", "Book", "Book", fun _ => .list [.null, .boolean true]⟩ ⟨0, "Book"⟩
          = .ok (holds op)) ∧
      [holds .lt, holds .eq, holds .gt].count true = 1 ∧ holds .gt = true := by
  have hb : Value.list [.integer 1, .text "a"] ≠ .null := nofun
  obtain ⟨-, -, hcomparable, -⟩ := operators_fit
    ⟨"ratings", "Book", "Book", fun _ => .list [.null, .boolean true]⟩ hb ⟨0, "Book"⟩
  obtain ⟨holds, hask, hone, -, -, hgt⟩ := hcomparable nofun ⟨.gt, rfl⟩
  exact ⟨hb, holds, hask, hone, hgt.2 rfl⟩

end Filter

end EntityStore
