import EntityStore.Proofs.Condition.Arguments
import Mathlib.Data.List.Induction

/-!
# Combined conditions lean to the left

Conditions that are combined from leaves have one form.  A junction has two parts at least; only its
first part may be a junction again, and then one of the other kind; all other parts are leaves.  A
condition of this form tells which leaves were combined and how.

    c.LeftSpine ↔ ∃ first rest, first.IsLeaf ∧ (∀ next ∈ rest, next.2.IsLeaf) ∧
      c = first.combineAll rest                                              (leftSpine_iff)
    (∀ next ∈ rest, next.2.IsLeaf) →
      (c.combineAll rest).leaves = c.leaves ++ rest.map (·.2)                (leaves_combineAll)
    first.combineAll rest = first'.combineAll rest' →
      first = first' ∧ rest = rest'                                          (combineAll_inj)
-/

namespace EntityStore

namespace Condition

/-! ## Form -/

/-- A comparison, perhaps negated. -/
inductive IsLeaf : Condition → Prop
  | comparison (field : String) (operator : Operator) (operand : Operand) :
    IsLeaf (.comparison field operator operand)
  | neg (field : String) (operator : Operator) (operand : Operand) :
    IsLeaf (.neg (.comparison field operator operand))

def junction : Conjunction → List Condition → Condition
  | .and, parts => conj parts
  | .or, parts => disj parts

/-- The condition leans to the left: below a junction there are leaves, but for a first part that
may be a junction of the other kind. -/
inductive LeftSpine : Condition → Prop
  | leaf {c : Condition} (h : c.IsLeaf) : LeftSpine c
  | junction {k : Conjunction} {first : Condition} {rest : List Condition}
    (hfirst : LeftSpine first) (hkind : ∀ parts, first ≠ junction k parts)
    (hne : rest ≠ []) (hrest : ∀ c ∈ rest, c.IsLeaf) : LeftSpine (junction k (first :: rest))

mutual

/-- The parts that are no junctions, from left to right. -/
def leaves : Condition → List Condition
  | comparison field operator operand => [comparison field operator operand]
  | conj parts => leavesAll parts
  | disj parts => leavesAll parts
  | neg inner => [neg inner]

def leavesAll : List Condition → List Condition
  | [] => []
  | c :: cs => leaves c ++ leavesAll cs

end

variable {c c' next next' first first' : Condition} {k k' : Conjunction}
  {parts parts' : List Condition} {rest rest' : List (Conjunction × Condition)}

/-! ## Junctions -/

theorem junction_inj (h : junction k parts = junction k' parts') : k = k' ∧ parts = parts' := by
  cases k <;> cases k' <;> cases h <;> exact ⟨rfl, rfl⟩

theorem IsLeaf.ne_junction (h : c.IsLeaf) : c ≠ junction k parts := by
  cases h <;> cases k <;> nofun

/-- A junction of the same kind is extended. -/
theorem combine_junction (k : Conjunction) (parts : List Condition) (next : Condition) :
    (junction k parts).combine k next = junction k (parts ++ [next]) := by
  cases k <;> rfl

/-- All else is wrapped. -/
theorem combine_of_ne (h : ∀ parts, c ≠ junction k parts) (next : Condition) :
    c.combine k next = junction k [c, next] := by
  cases k with
  | and =>
    cases c with
    | conj parts => exact absurd rfl (h parts)
    | comparison | disj | neg => rfl
  | or =>
    cases c with
    | disj parts => exact absurd rfl (h parts)
    | comparison | conj | neg => rfl

theorem combine_cases (c : Condition) (k : Conjunction) (next : Condition) :
    (∃ parts, c = junction k parts ∧ c.combine k next = junction k (parts ++ [next])) ∨
      (∀ parts, c ≠ junction k parts) ∧ c.combine k next = junction k [c, next] := by
  by_cases h : ∃ parts, c = junction k parts
  · obtain ⟨parts, rfl⟩ := h
    exact .inl ⟨parts, rfl, combine_junction k parts next⟩
  · have hkind : ∀ parts, c ≠ junction k parts := fun parts hc => h ⟨parts, hc⟩
    exact .inr ⟨hkind, combine_of_ne hkind next⟩

theorem IsLeaf.ne_combine (h : c.IsLeaf) : c ≠ c'.combine k next := by
  obtain ⟨parts, -, hcombine⟩ | ⟨-, hcombine⟩ := combine_cases c' k next
  · rw [hcombine]
    exact h.ne_junction
  · rw [hcombine]
    exact h.ne_junction

/-! ## Combining -/

/-- A junction of this form has a first part of another kind and, behind it, leaves. -/
theorem LeftSpine.exists_cons (h : (Condition.junction k parts).LeftSpine) :
    ∃ first rest, parts = first :: rest ∧ first.LeftSpine ∧
      (∀ parts, first ≠ Condition.junction k parts) ∧ rest ≠ [] ∧ ∀ c ∈ rest, c.IsLeaf := by
  generalize heq : Condition.junction k parts = c at h
  cases h with
  | leaf h => exact absurd heq.symm h.ne_junction
  | junction hfirst hkind hne hrest =>
    obtain ⟨rfl, rfl⟩ := junction_inj heq
    exact ⟨_, _, rfl, hfirst, hkind, hne, hrest⟩

theorem LeftSpine.combine (h : c.LeftSpine) (hnext : next.IsLeaf) (k : Conjunction) :
    (c.combine k next).LeftSpine := by
  obtain ⟨parts, rfl, hcombine⟩ | ⟨hkind, hcombine⟩ := combine_cases c k next
  · obtain ⟨first, rest, rfl, hfirst, hkind, hne, hrest⟩ := h.exists_cons
    rw [hcombine]
    refine .junction hfirst hkind (List.append_ne_nil_of_left_ne_nil hne _) ?_
    exact List.forall_mem_append.2 ⟨hrest, List.forall_mem_singleton.2 hnext⟩
  · rw [hcombine]
    exact .junction h hkind (List.cons_ne_nil _ _) (List.forall_mem_singleton.2 hnext)

/-- What is combined with a condition becomes the last part of a junction.  Of the parts before it
there are two at least where a junction was extended, and one where a condition was wrapped. -/
theorem LeftSpine.exists_combine_eq (h : c.LeftSpine) (k : Conjunction) (next : Condition) :
    ∃ parts, c.combine k next = Condition.junction k (parts ++ [next]) ∧
      (c = Condition.junction k parts ∧ 1 < parts.length ∨ parts = [c]) := by
  obtain ⟨parts, rfl, hcombine⟩ | ⟨-, hcombine⟩ := combine_cases c k next
  · obtain ⟨first, rest, rfl, -, -, hne, -⟩ := h.exists_cons
    have hpos : 0 < rest.length := List.length_pos_iff.2 hne
    refine ⟨_, hcombine, .inl ⟨rfl, ?_⟩⟩
    rw [List.length_cons]
    omega
  · exact ⟨[c], hcombine, .inr rfl⟩

/-- The last step of combining can be taken back. -/
theorem LeftSpine.combine_inj (h : c.LeftSpine) (h' : c'.LeftSpine)
    (heq : c.combine k next = c'.combine k' next') : c = c' ∧ k = k' ∧ next = next' := by
  obtain ⟨parts, hcombine, hparts⟩ := h.exists_combine_eq k next
  obtain ⟨parts', hcombine', hparts'⟩ := h'.exists_combine_eq k' next'
  rw [hcombine, hcombine'] at heq
  obtain ⟨rfl, hall⟩ := junction_inj heq
  obtain ⟨rfl, hlast⟩ := List.append_inj' hall rfl
  refine ⟨?_, rfl, List.singleton_inj.1 hlast⟩
  rcases hparts with ⟨hc, hlong⟩ | hc
  · rcases hparts' with ⟨hc', -⟩ | hc'
    · rw [hc, hc']
    · rw [hc'] at hlong
      exact absurd hlong (Nat.lt_irrefl 1)
  · rcases hparts' with ⟨-, hlong⟩ | hc'
    · rw [hc] at hlong
      exact absurd hlong (Nat.lt_irrefl 1)
    · exact List.singleton_inj.1 (hc.symm.trans hc')

/-! ## Rows of leaves -/

theorem combineAll_append (c : Condition) (xs ys : List (Conjunction × Condition)) :
    c.combineAll (xs ++ ys) = (c.combineAll xs).combineAll ys :=
  List.foldl_append

theorem combineAll_concat (c : Condition) (rest : List (Conjunction × Condition))
    (next : Conjunction × Condition) :
    c.combineAll (rest ++ [next]) = (c.combineAll rest).combine next.1 next.2 :=
  combineAll_append c rest [next]

theorem combineAll_junction (k : Conjunction) (parts more : List Condition) :
    (junction k parts).combineAll (more.map fun c => (k, c)) = junction k (parts ++ more) := by
  induction more generalizing parts with
  | nil => rw [List.append_nil]; rfl
  | cons c more ih =>
    rw [List.map_cons, combineAll, List.foldl_cons, ← combineAll, combine_junction, ih,
      List.append_assoc]
    rfl

theorem LeftSpine.combineAll (h : c.LeftSpine) (hrest : ∀ next ∈ rest, next.2.IsLeaf) :
    (c.combineAll rest).LeftSpine := by
  induction rest generalizing c with
  | nil => exact h
  | cons next rest ih =>
    rw [List.forall_mem_cons] at hrest
    exact ih (h.combine hrest.1 next.1) hrest.2

/-- The conditions of this form are those that are combined from leaves. -/
theorem leftSpine_iff :
    c.LeftSpine ↔ ∃ (first : Condition) (rest : List (Conjunction × Condition)), first.IsLeaf ∧
      (∀ next ∈ rest, next.2.IsLeaf) ∧ c = first.combineAll rest := by
  constructor
  · intro h
    induction h with
    | leaf h => exact ⟨_, [], h, List.forall_mem_nil _, rfl⟩
    | @junction k spine others _ hkind hne hothers ih =>
      obtain ⟨first, rest, hfirst, hrest, hspine⟩ := ih
      obtain ⟨second, others, rfl⟩ := List.exists_cons_of_ne_nil hne
      refine ⟨first, rest ++ (second :: others).map fun c => (k, c), hfirst, ?_, ?_⟩
      · exact List.forall_mem_append.2 ⟨hrest, List.forall_mem_map.2 hothers⟩
      · rw [combineAll_append, ← hspine, List.map_cons, Condition.combineAll, List.foldl_cons,
          ← Condition.combineAll, combine_of_ne hkind, combineAll_junction]
        rfl
  · rintro ⟨first, rest, hfirst, hrest, rfl⟩
    exact LeftSpine.combineAll (.leaf hfirst) hrest

/-- A combined condition tells what it was combined from. -/
theorem combineAll_inj (hfirst : first.IsLeaf) (hrest : ∀ next ∈ rest, next.2.IsLeaf)
    (hfirst' : first'.IsLeaf) (hrest' : ∀ next ∈ rest', next.2.IsLeaf)
    (h : first.combineAll rest = first'.combineAll rest') : first = first' ∧ rest = rest' := by
  -- Each conjunction wraps what stands before it, so the rows are taken apart from the right.
  induction rest using List.reverseRecOn generalizing rest' with
  | nil =>
    rcases List.eq_nil_or_concat rest' with rfl | ⟨rest', next', rfl⟩
    · exact ⟨h, rfl⟩
    · rw [List.concat_eq_append, combineAll_concat] at h
      exact absurd h hfirst.ne_combine
  | append_singleton rest next ih =>
    rcases List.eq_nil_or_concat rest' with rfl | ⟨rest', next', rfl⟩
    · rw [combineAll_concat] at h
      exact absurd h.symm hfirst'.ne_combine
    · rw [List.concat_eq_append] at h hrest' ⊢
      rw [combineAll_concat, combineAll_concat] at h
      rw [List.forall_mem_append] at hrest hrest'
      obtain ⟨hall, hk, hlast⟩ := LeftSpine.combine_inj
        (LeftSpine.combineAll (.leaf hfirst) hrest.1)
        (LeftSpine.combineAll (.leaf hfirst') hrest'.1) h
      obtain ⟨rfl, rfl⟩ := ih hrest.1 hrest'.1 hall
      exact ⟨rfl, by rw [Prod.ext hk hlast]⟩

/-! ## Leaves -/

theorem IsLeaf.leaves_eq (h : c.IsLeaf) : c.leaves = [c] := by
  cases h <;> rfl

theorem leavesAll_append (cs ds : List Condition) :
    leavesAll (cs ++ ds) = leavesAll cs ++ leavesAll ds := by
  induction cs with
  | nil => rfl
  | cons c cs ih => rw [List.cons_append, leavesAll, leavesAll, ih, List.append_assoc]

theorem leaves_combine (c : Condition) (k : Conjunction) (next : Condition) :
    (c.combine k next).leaves = c.leaves ++ next.leaves := by
  cases c <;> cases k <;> simp [Condition.combine, leaves, leavesAll, leavesAll_append]

theorem leaves_combineAll (c : Condition) (h : ∀ next ∈ rest, next.2.IsLeaf) :
    (c.combineAll rest).leaves = c.leaves ++ rest.map (·.2) := by
  induction rest generalizing c with
  | nil => exact (List.append_nil _).symm
  | cons next rest ih =>
    rw [List.forall_mem_cons] at h
    rw [combineAll, List.foldl_cons, ← combineAll, ih _ h.2, leaves_combine, h.1.leaves_eq,
      List.append_assoc]
    rfl

/-! ## Binding -/

theorem IsLeaf.wellFormed (h : c.IsLeaf) : c.WellFormed := by
  cases h <;> trivial

theorem LeftSpine.wellFormed (h : c.LeftSpine) : c.WellFormed := by
  obtain ⟨first, rest, hfirst, hrest, rfl⟩ := leftSpine_iff.1 h
  exact hfirst.wellFormed.combineAll fun next hnext => (hrest next hnext).wellFormed

end Condition

theorem Schema.resolve_ne_emptyJunction (schema : Schema) (field : String) :
    schema.resolve field ≠ .error .emptyJunction := by
  unfold resolve
  split
  · nofun
  · split <;> nofun

theorem Operand.take_ne_emptyJunction (operand : Operand) (args : List Value) :
    operand.take args ≠ .error .emptyJunction := by
  unfold take
  split <;> nofun

theorem Filter.compare_ne_emptyJunction (operator : Operator) (v : Value) (accessor : Accessor) :
    Filter.compare operator v accessor ≠ .error .emptyJunction := by
  unfold compare
  split
  · nofun
  · split
    · nofun
    · split <;> nofun
    · nofun

/-- A comparison can be at fault for its field or its operand only. -/
theorem Comparison.bind_ne_emptyJunction (schema : Schema) (l : Comparison) (args : List Value) :
    l.bind schema args ≠ .error .emptyJunction := by
  obtain ⟨field, operator, operand⟩ := l
  intro h
  unfold bind Condition.bind at h
  rcases bind_eq_error.1 h with h | ⟨accessor, -, h⟩
  · exact schema.resolve_ne_emptyJunction field h
  · rcases bind_eq_error.1 h with h | ⟨⟨v, rest⟩, -, h⟩
    · exact operand.take_ne_emptyJunction args h
    · rcases bind_eq_error.1 h with h | ⟨f, -, h⟩
      · exact Filter.compare_ne_emptyJunction operator v accessor h
      · cases h

theorem Comparison.bindAll_ne_emptyJunction (schema : Schema) (ls : List Comparison)
    (args : List Value) : bindAll schema ls args ≠ .error .emptyJunction := by
  induction ls generalizing args with
  | nil => nofun
  | cons l ls ih =>
    intro h
    rcases bind_eq_error.1 h with h | ⟨bound, -, h⟩
    · exact bind_ne_emptyJunction schema l args h
    · rcases bind_eq_error.1 h with h | ⟨others, -, h⟩
      · exact ih bound.2 h
      · cases h

theorem Condition.WellFormed.bind_ne_emptyJunction {c : Condition} (h : c.WellFormed)
    (schema : Schema) (args : List Value) : c.bind schema args ≠ .error .emptyJunction := by
  intro herror
  exact Comparison.bindAll_ne_emptyJunction schema c.comparisons args
    ((agrees_bind h args).eq_error_iff.1 herror)

end EntityStore
