import EntityStore.Proofs.Sorting.StableSort
import EntityStore.Storage.Store

/-!
# What a selection holds

A filter selects exactly the records that it accepts, in their order, and does so only if it
decides them all.  The selection of a store is a window of these records, sorted.

    f.select rs = .ok out ↔ (∀ r ∈ rs, ∃ b, f r = .ok b) ∧ out = rs.filter f.accepts
                                                                   (Filter.select_eq_ok_iff)
    r ∈ s.instancesWhere schema f ↔
      (∃ k, s.contents.get? k = some r) ∧ schema.isInstance r = true ∧ f r = .ok true
                                                                   (Store.mem_instancesWhere)
    s.select f cs skip limit = .ok out ↔ ∃ found sorted, f.select s.records = .ok found ∧
      sortRecords cs found = .ok sorted ∧ out = Store.window skip limit sorted
                                                                    (Store.select_eq_ok_iff)
-/

namespace EntityStore

namespace Filter

/-- The filter decides that the record matches. -/
def accepts (f : Filter) (r : Record) : Bool :=
  match f r with
  | .ok b => b
  | .error _ => false

theorem accepts_of_ok {f : Filter} {r : Record} {b : Bool} (h : f r = .ok b) :
    f.accepts r = b := by
  rw [accepts, h]

theorem accepts_iff {f : Filter} {r : Record} : f.accepts r = true ↔ f r = .ok true := by
  unfold accepts
  split
  · next b hb => rw [hb]; simp
  · next failure hfailure => rw [hfailure]; simp

theorem accepts_onInstances (schema : Schema) (f : Filter) (r : Record) :
    (f.onInstances schema).accepts r = (schema.isInstance r && f.accepts r) := by
  unfold accepts onInstances
  cases schema.isInstance r
  · rfl
  · rfl

theorem select_cons_eq_ok {f : Filter} {r : Record} {rs out : List Record} :
    f.select (r :: rs) = .ok out ↔
      ∃ b rest, f r = .ok b ∧ f.select rs = .ok rest ∧ out = if b then r :: rest else rest := by
  rw [select, bind_eq_ok]
  constructor
  · rintro ⟨b, hb, h⟩
    cases b with
    | false => exact ⟨false, out, hb, h, rfl⟩
    | true =>
      obtain ⟨rest, hrest, h⟩ := bind_eq_ok.1 h
      cases h
      exact ⟨true, rest, hb, hrest, rfl⟩
  · rintro ⟨b, rest, hb, hrest, rfl⟩
    refine ⟨b, hb, ?_⟩
    cases b with
    | false => exact hrest
    | true => exact bind_eq_ok.2 ⟨rest, hrest, rfl⟩

theorem select_eq_ok_iff {f : Filter} {rs out : List Record} :
    f.select rs = .ok out ↔ (∀ r ∈ rs, ∃ b, f r = .ok b) ∧ out = rs.filter f.accepts := by
  induction rs generalizing out with
  | nil =>
    constructor
    · intro h
      cases h
      exact ⟨fun r hr => absurd hr List.not_mem_nil, rfl⟩
    · rintro ⟨-, rfl⟩
      rfl
  | cons r rs ih =>
    rw [select_cons_eq_ok, List.filter_cons, List.forall_mem_cons]
    constructor
    · rintro ⟨b, rest, hb, hrest, rfl⟩
      obtain ⟨hdecided, rfl⟩ := ih.1 hrest
      rw [accepts_of_ok hb]
      exact ⟨⟨⟨b, hb⟩, hdecided⟩, rfl⟩
    · rintro ⟨⟨⟨b, hb⟩, hdecided⟩, rfl⟩
      rw [accepts_of_ok hb]
      exact ⟨b, rs.filter f.accepts, hb, ih.2 ⟨hdecided, rfl⟩, rfl⟩

theorem error_of_select {f : Filter} {rs : List Record} {failure : Failure}
    (h : f.select rs = .error failure) : ∃ r ∈ rs, f r = .error failure := by
  induction rs with
  | nil => cases h
  | cons r rs ih =>
    have hrest : f.select rs = .error failure → ∃ x ∈ r :: rs, f x = .error failure := by
      intro hrest
      obtain ⟨x, hx, hfx⟩ := ih hrest
      exact ⟨x, List.mem_cons_of_mem r hx, hfx⟩
    rw [select] at h
    rcases bind_eq_error.1 h with hr | ⟨b, -, h⟩
    · exact ⟨r, List.mem_cons_self, hr⟩
    · cases b with
      | false => exact hrest h
      | true =>
        rcases bind_eq_error.1 h with h | ⟨rest, -, h⟩
        · exact hrest h
        · cases h

/-- Without a condition all instances of the type are selected. -/
theorem select_always (schema : Schema) (rs : List Record) :
    (always.onInstances schema).select rs = .ok (schema.instances rs) := by
  refine select_eq_ok_iff.2 ⟨fun r _ => ⟨schema.isInstance r, ?_⟩, ?_⟩
  · unfold onInstances
    cases schema.isInstance r <;> rfl
  · refine List.filter_congr fun r _ => ?_
    rw [accepts_onInstances]
    cases schema.isInstance r <;> rfl

end Filter

namespace Store

/-- The records of the entries that hold instances of a type which a filter accepts, in the order
of the entries. -/
def instancesWhere (schema : Schema) (f : Filter) (s : Store) : List Record :=
  (s.contents.entries.filter fun e => schema.isInstance e.2 && f.accepts e.2).map (·.2)

theorem eq_instancesWhere_of_select {schema : Schema} {f : Filter} {s : Store}
    {found : List Record} (h : (f.onInstances schema).select s.records = .ok found) :
    found = s.instancesWhere schema f := by
  obtain ⟨-, rfl⟩ := Filter.select_eq_ok_iff.1 h
  have haccepts : (f.onInstances schema).accepts = fun r => schema.isInstance r && f.accepts r :=
    funext (Filter.accepts_onInstances schema f)
  rw [haccepts, records, Container.records, List.filter_map]
  rfl

theorem mem_instancesWhere {schema : Schema} {f : Filter} {s : Store} {r : Record} :
    r ∈ s.instancesWhere schema f ↔
      (∃ k, s.contents.get? k = some r) ∧ schema.isInstance r = true ∧ f r = .ok true := by
  rw [instancesWhere, List.mem_map]
  constructor
  · rintro ⟨e, he, rfl⟩
    rw [List.mem_filter, Bool.and_eq_true, Filter.accepts_iff] at he
    exact ⟨⟨e.1, Container.get?_eq_some_iff.2 he.1⟩, he.2⟩
  · rintro ⟨⟨k, hk⟩, hr⟩
    refine ⟨(k, r), ?_, rfl⟩
    rw [List.mem_filter, Bool.and_eq_true, Filter.accepts_iff]
    exact ⟨Container.get?_eq_some_iff.1 hk, hr⟩

theorem select_eq_ok_iff {f : Filter} {cs : List Comparator} {skip limit : Nat} {s : Store}
    {out : List Record} :
    s.select f cs skip limit = .ok out ↔ ∃ found sorted, f.select s.records = .ok found ∧
      sortRecords cs found = .ok sorted ∧ out = window skip limit sorted := by
  rw [select, bind_eq_ok]
  constructor
  · rintro ⟨found, hfound, h⟩
    obtain ⟨sorted, hsorted, h⟩ := bind_eq_ok.1 h
    cases h
    exact ⟨found, sorted, hfound, hsorted, rfl⟩
  · rintro ⟨found, sorted, hfound, hsorted, rfl⟩
    exact ⟨found, hfound, bind_eq_ok.2 ⟨sorted, hsorted, rfl⟩⟩

end Store

end EntityStore
