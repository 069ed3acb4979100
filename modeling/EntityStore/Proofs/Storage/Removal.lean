import EntityStore.Proofs.Query.Selection
import Mathlib.Data.List.Nodup

/-!
# What a removal leaves

A removal of keys leaves all other entries as they are and tells how many entries went.  A removal
by a filter goes through only where the filter decides every record, and leaves the entries whose
records it does not accept.

    (c.eraseAll keys).get? k = if k ∈ keys then none else c.get? k               (get?_eraseAll)
    countPresent c keys + (c.eraseAll keys).size = c.size                 (countPresent_add_size)
    removeWhere f s = (.ok n, t) ↔ (∀ r ∈ s.records, ∃ b, f r = .ok b) ∧
      n = (s.records.filter f.accepts).length ∧
      t = s.replaceContents (s.contents.without f)                        (removeWhere_eq_ok_iff)
    removeWhere f s = (.error failure, t) ↔ f.select s.records = .error failure ∧ t = s
                                                                       (removeWhere_eq_error_iff)
-/

namespace EntityStore

namespace Container

/-! ## Keys -/

theorem mem_keys_iff {c : Container} {k : Value} : k ∈ c.keys ↔ ∃ r, c.get? k = some r := by
  rw [keys, keysOf, List.mem_map]
  constructor
  · rintro ⟨⟨k, r⟩, he, rfl⟩
    exact ⟨r, get?_eq_some_iff.2 he⟩
  · rintro ⟨r, hr⟩
    exact ⟨(k, r), get?_eq_some_iff.1 hr, rfl⟩

theorem contains_iff {c : Container} {k : Value} : c.contains k = true ↔ k ∈ c.keys := by
  rw [contains, Option.isSome_iff_exists, mem_keys_iff]

/-- At most one entry is under a key, so at most one goes with it. -/
theorem size_erase (c : Container) (k : Value) :
    (if c.contains k then 1 else 0) + (c.erase k).size = c.size := by
  have hcount : (c.entries.filter fun e => !decide (e.1 ≠ k)).length =
      if c.contains k then 1 else 0 := by
    have hkeys : (c.entries.filter fun e => !decide (e.1 ≠ k)).length
        = (keysOf c.entries).count k := by
      rw [keysOf, List.count, List.countP_map, List.countP_eq_length_filter]
      congr 2
      funext e
      by_cases h : e.1 = k <;> simp [h]
    rw [hkeys, c.nodup.count]
    simp only [contains_iff, keys]
  rw [← hcount, Nat.add_comm]
  exact (List.length_eq_length_filter_add fun e : Value × Record => decide (e.1 ≠ k)).symm

/-! ## Several keys -/

theorem entries_eraseAll (c : Container) (ks : List Value) :
    (c.eraseAll ks).entries = c.entries.filter (·.1 ∉ ks) := by
  induction ks generalizing c with
  | nil => exact (List.filter_eq_self.2 fun _ _ => rfl).symm
  | cons k ks ih =>
    show ((c.erase k).eraseAll ks).entries = _
    rw [ih]
    show (c.entries.filter (·.1 ≠ k)).filter _ = _
    rw [List.filter_filter]
    congr 1
    funext e
    simp [Bool.and_comm]

theorem get?_eraseAll (c : Container) (ks : List Value) (k : Value) :
    (c.eraseAll ks).get? k = if k ∈ ks then none else c.get? k := by
  induction ks generalizing c with
  | nil => rfl
  | cons a ks ih =>
    show ((c.erase a).eraseAll ks).get? k = _
    rw [ih, get?_erase]
    by_cases hk : k ∈ ks <;> by_cases ha : k = a <;> simp [hk, ha]

/-! ## Filters -/

/-- The entries whose records a filter does not accept. -/
def without (c : Container) (f : Filter) : Container :=
  ⟨c.entries.filter fun e => !f.accepts e.2, (List.Sublist.map _ List.filter_sublist).nodup c.nodup⟩

theorem get?_without_eq_some_iff {c : Container} {f : Filter} {k : Value} {r : Record} :
    (c.without f).get? k = some r ↔ c.get? k = some r ∧ f.accepts r = false := by
  rw [get?_eq_some_iff, get?_eq_some_iff, without, List.mem_filter, Bool.not_eq_true']

theorem get?_without (c : Container) (f : Filter) (k : Value) :
    (c.without f).get? k = if (c.get? k).any f.accepts then none else c.get? k := by
  apply Option.ext
  intro r
  rw [get?_without_eq_some_iff]
  cases c.get? k with
  | none => simp
  | some r' =>
    cases hr' : f.accepts r' with
    | false => simpa [hr'] using fun h : r' = r => h ▸ hr'
    | true => simpa [hr'] using fun h : r' = r => h ▸ hr'

/-- No two entries share a key, so the keys of the accepted entries are those of no others. -/
theorem eraseAll_accepted (c : Container) (f : Filter) :
    c.eraseAll (keysOf (c.entries.filter fun e => f.accepts e.2)) = c.without f := by
  apply ext
  rw [entries_eraseAll]
  refine List.filter_congr fun e he => ?_
  rw [Bool.eq_iff_iff, decide_eq_true_iff, Bool.not_eq_true', ← Bool.not_eq_true]
  refine not_congr ?_
  rw [keysOf, List.mem_map]
  constructor
  · rintro ⟨e', he', hkey⟩
    rw [List.mem_filter] at he'
    rw [← List.inj_on_of_nodup_map c.nodup he'.1 he hkey]
    exact he'.2
  · intro h
    exact ⟨e, List.mem_filter.2 ⟨he, h⟩, rfl⟩

/-- What is left holds nothing that the filter accepts. -/
theorem filter_records_without (c : Container) (f : Filter) :
    (c.without f).records.filter f.accepts = [] := by
  rw [List.filter_eq_nil_iff, records, List.forall_mem_map]
  intro e he
  rw [without, List.mem_filter, Bool.not_eq_true'] at he
  rw [he.2]
  exact Bool.false_ne_true

theorem without_without (c : Container) (f : Filter) : (c.without f).without f = c.without f := by
  apply ext
  refine List.filter_eq_self.2 fun e he => ?_
  exact (List.mem_filter.1 he).2

theorem size_without (c : Container) (f : Filter) :
    (c.records.filter f.accepts).length + (c.without f).size = c.size := by
  rw [records, List.filter_map, List.length_map]
  exact (List.length_eq_length_filter_add fun e : Value × Record => f.accepts e.2).symm

end Container

namespace Store

/-! ## Counting -/

theorem countPresent_add_size (c : Container) (ks : List Value) :
    countPresent c ks + (c.eraseAll ks).size = c.size := by
  induction ks generalizing c with
  | nil => exact Nat.zero_add _
  | cons k ks ih =>
    show (if c.contains k then 1 else 0) + countPresent (c.erase k) ks +
      ((c.erase k).eraseAll ks).size = c.size
    rw [Nat.add_assoc, ih, Container.size_erase]

/-! ## Removing by a filter -/

theorem matchingKeys_eq_ok_iff {f : Filter} {es : List (Value × Record)} {ks : List Value} :
    matchingKeys f es = .ok ks ↔
      (∀ e ∈ es, ∃ b, f e.2 = .ok b) ∧ ks = keysOf (es.filter fun e => f.accepts e.2) := by
  induction es generalizing ks with
  | nil =>
    constructor
    · intro h
      cases h
      exact ⟨fun e he => absurd he List.not_mem_nil, rfl⟩
    · rintro ⟨-, rfl⟩
      rfl
  | cons e es ih =>
    rw [matchingKeys, bind_eq_ok, List.filter_cons, List.forall_mem_cons]
    constructor
    · rintro ⟨b, hb, h⟩
      rw [Filter.accepts_of_ok hb]
      cases b with
      | false =>
        obtain ⟨hdecided, rfl⟩ := ih.1 h
        exact ⟨⟨⟨_, hb⟩, hdecided⟩, rfl⟩
      | true =>
        obtain ⟨rest, hrest, h⟩ := bind_eq_ok.1 h
        cases h
        obtain ⟨hdecided, rfl⟩ := ih.1 hrest
        exact ⟨⟨⟨_, hb⟩, hdecided⟩, rfl⟩
    · rintro ⟨⟨⟨b, hb⟩, hdecided⟩, rfl⟩
      refine ⟨b, hb, ?_⟩
      rw [Filter.accepts_of_ok hb]
      have hrest := ih.2 ⟨hdecided, rfl⟩
      cases b with
      | false => exact hrest
      | true => exact bind_eq_ok.2 ⟨_, hrest, rfl⟩

/-- A removal by a filter, taken apart. -/
theorem removeWhere_eq_ok_iff {f : Filter} {s t : Store} {n : Nat} :
    removeWhere f s = (.ok n, t) ↔ (∀ r ∈ s.records, ∃ b, f r = .ok b) ∧
      n = (s.records.filter f.accepts).length ∧
      t = s.replaceContents (s.contents.without f) := by
  have hdecided : (∀ r ∈ s.records, ∃ b, f r = .ok b) ↔
      ∀ e ∈ s.contents.entries, ∃ b, f e.2 = .ok b := List.forall_mem_map
  -- What the count tells is the difference of the sizes.
  have hcount : countPresent s.contents (keysOf (s.contents.entries.filter fun e => f.accepts e.2))
      = (s.records.filter f.accepts).length := by
    have hkeys := countPresent_add_size s.contents
      (keysOf (s.contents.entries.filter fun e => f.accepts e.2))
    have hsize := s.contents.size_without f
    rw [Container.eraseAll_accepted] at hkeys
    rw [records]
    omega
  rw [hdecided, removeWhere]
  cases hkeys : matchingKeys f s.contents.entries with
  | error failure =>
    constructor
    · intro h
      cases h
    · rintro ⟨h, -⟩
      rw [matchingKeys_eq_ok_iff.2 ⟨h, rfl⟩] at hkeys
      cases hkeys
  | ok ks =>
    obtain ⟨h, rfl⟩ := matchingKeys_eq_ok_iff.1 hkeys
    rw [and_iff_right h]
    dsimp only [removeKeys]
    rw [Container.eraseAll_accepted, hcount, Prod.mk.injEq, Except.ok.injEq, @eq_comm _ _ n,
      @eq_comm _ _ t]

theorem matchingKeys_eq_error_iff {f : Filter} {es : List (Value × Record)} {failure : Failure} :
    matchingKeys f es = .error failure ↔ f.select (es.map (·.2)) = .error failure := by
  induction es with
  | nil => exact iff_of_false nofun nofun
  | cons e es ih =>
    rw [matchingKeys, List.map_cons, Filter.select]
    cases f e.2 with
    | error failure' =>
      show (.error failure' : Except Failure _) = _ ↔ (.error failure' : Except Failure _) = _
      simp
    | ok b =>
      cases b with
      | false => exact ih
      | true =>
        show (matchingKeys f es >>= fun ks => pure (e.1 :: ks)) = _ ↔
          (f.select (es.map (·.2)) >>= fun rs => pure (e.2 :: rs)) = _
        rw [bind_eq_error, bind_eq_error, ih]
        constructor
        · rintro (h | ⟨ks, -, h⟩)
          · exact .inl h
          · cases h
        · rintro (h | ⟨rs, -, h⟩)
          · exact .inl h
          · cases h

/-- A removal fails as the search for what it would remove, and removes nothing then. -/
theorem removeWhere_eq_error_iff {f : Filter} {s t : Store} {failure : Failure} :
    removeWhere f s = (.error failure, t) ↔ f.select s.records = .error failure ∧ t = s := by
  have hselect : f.select s.records = .error failure ↔
      matchingKeys f s.contents.entries = .error failure := matchingKeys_eq_error_iff.symm
  rw [hselect, removeWhere]
  cases matchingKeys f s.contents.entries with
  | error failure' =>
    constructor
    · intro h
      cases h
      exact ⟨rfl, rfl⟩
    · rintro ⟨h, rfl⟩
      cases h
      rfl
  | ok ks =>
    constructor
    · intro h
      cases h
    · rintro ⟨h, -⟩
      cases h

/-- A removal leaves nothing for the same removal to do. -/
theorem removeWhere_again {f : Filter} {s t : Store} {n : Nat} (h : removeWhere f s = (.ok n, t)) :
    ∃ t', removeWhere f t = (.ok 0, t') ∧ t'.contents = t.contents := by
  obtain ⟨hdecided, -, rfl⟩ := removeWhere_eq_ok_iff.1 h
  refine ⟨_, removeWhere_eq_ok_iff.2 ⟨?_, ?_, rfl⟩, Container.without_without s.contents f⟩
  · intro r hr
    obtain ⟨e, he, rfl⟩ := List.mem_map.1 hr
    exact hdecided e.2 (List.mem_map_of_mem (List.mem_filter.1 he).1)
  · exact (congrArg List.length (Container.filter_records_without s.contents f)).symm

end Store

end EntityStore
