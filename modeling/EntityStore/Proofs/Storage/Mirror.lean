import EntityStore.Proofs.Storage.History

/-!
# The durable copy of a store

A durable copy that starts like a store and applies each of its commits should hold what the store
holds (`Store.Mirrored`).  It does after every operation, with one exception: under the refined
policy a batch may put a record over itself and then, under the same key, another record.  The
container is committed before the records in place, so the copy is left with the first of the two.

    every store of a history is mirrored ↔ no write of it overtakes itself    (trail_mirrored_iff)
    distinct keys → ¬ Overtaken c batch                                (not_overtaken_of_nodup)
-/

namespace EntityStore

/-- The durable copy that started as `initial` has the store's record under every key. -/
def Store.Mirrored (initial : Container) (s : Store) : Prop :=
  ∀ k, (replay initial s.commits).get? k = s.contents.get? k

/-- For one of its keys, the last record that a batch puts over itself is not the last record that
it puts there. -/
def Overtaken (c : Container) (batch : List (Value × Record)) : Prop :=
  ∃ k r, (repeats (c.get? k) (recordsOf k batch)).getLast? = some r ∧
    (recordsOf k batch).getLast? ≠ some r

/-- A batch that is not refused and is overtaken, where records are committed alone. -/
def Write.Overtakes (s : Store) (w : Write) : Prop :=
  s.isRefined = true ∧ (∀ e ∈ w.offered, e.1.isNull = false) ∧ Overtaken s.contents w.offered

/-! ## Batches -/

theorem mem_of_mem_repeats {previous : Option Record} {rs : List Record} {r : Record}
    (h : r ∈ repeats previous rs) : r ∈ rs := by
  induction rs generalizing previous with
  | nil => cases h
  | cons x xs ih =>
    rw [repeats] at h
    split at h
    · rcases List.mem_cons.1 h with rfl | h
      · exact List.mem_cons_self
      · exact List.mem_cons_of_mem _ (ih h)
    · exact List.mem_cons_of_mem _ (ih h)

theorem recordsOf_eq_nil {k : Value} {entries : List (Value × Record)} (h : k ∉ keysOf entries) :
    recordsOf k entries = [] := by
  have hnone : entries.filter (·.1 = k) = [] := by
    rw [List.filter_eq_nil_iff]
    intro e he hk
    exact h (List.mem_map.2 ⟨e, he, of_decide_eq_true hk⟩)
  rw [recordsOf, hnone, List.map_nil]

theorem length_recordsOf_le_one {batch : List (Value × Record)} (h : (keysOf batch).Nodup)
    (k : Value) : (recordsOf k batch).length ≤ 1 := by
  induction batch with
  | nil => simp [recordsOf]
  | cons e es ih =>
    rw [keysOf_cons, List.nodup_cons] at h
    rw [recordsOf_cons]
    by_cases hk : e.1 = k
    · subst hk
      rw [if_pos rfl, recordsOf_eq_nil h.1]
      exact Nat.le_refl 1
    · rw [if_neg hk]
      exact ih h.2

/-- A batch that has no key twice is not overtaken. -/
theorem not_overtaken_of_nodup {batch : List (Value × Record)} (h : (keysOf batch).Nodup)
    (c : Container) : ¬ Overtaken c batch := by
  rintro ⟨k, r, hlast, hne⟩
  have hmem : r ∈ recordsOf k batch := mem_of_mem_repeats (List.mem_of_getLast? hlast)
  obtain ⟨x, hx⟩ := List.length_eq_one_iff.1
    (Nat.le_antisymm (length_recordsOf_le_one h k) (List.length_pos_of_mem hmem))
  rw [hx, List.mem_singleton] at hmem
  exact hne (by rw [hx, hmem]; rfl)

/-- Filing the entries in place once more, after the whole batch, undoes nothing exactly when the
batch is not overtaken. -/
theorem insertAll_inPlace_iff (c : Container) (batch : List (Value × Record)) :
    (∀ k, ((c.insertAll batch).insertAll (Store.splitBatch c batch).2).get? k
      = (c.insertAll batch).get? k) ↔ ¬ Overtaken c batch := by
  simp only [Container.get?_insertAll, Store.recordsOf_splitBatch, Overtaken, not_exists, not_and,
    Classical.not_not]
  refine forall_congr' fun k => ?_
  cases hlast : (repeats (c.get? k) (recordsOf k batch)).getLast? with
  | none => simp
  | some r =>
    have hmem : r ∈ recordsOf k batch := mem_of_mem_repeats (List.mem_of_getLast? hlast)
    cases hfinal : (recordsOf k batch).getLast? with
    | none =>
      rw [List.getLast?_eq_none_iff] at hfinal
      rw [hfinal] at hmem
      cases hmem
    | some r' => simp [eq_comm]

/-! ## Writes -/

section
variable {initial : Container}

theorem replay_commit (s : Store) (cs : List Commit) :
    replay initial (s.commit cs).commits = replay (replay initial s.commits) cs := by
  rw [Store.commit, replay_append]

theorem mirrored_replaceContents (s : Store) (contents : Container) :
    (s.replaceContents contents).Mirrored initial := by
  intro k
  rw [Store.replaceContents, replay_commit]
  rfl

/-- A commit of the whole container brings the copy up to date. -/
theorem mirrored_root (s : Store) : (s.commit [.container s.contents]).Mirrored initial :=
  mirrored_replaceContents s s.contents

theorem mirrored_single {s t : Store} (hs : s.Mirrored initial) (h : Write.Single s t) :
    t.Mirrored initial := by
  cases h with
  | unchanged => exact hs
  | replaced contents => exact mirrored_replaceContents s contents
  | inPlace k r h =>
    intro k'
    rw [replay_commit]
    show ((replay initial s.commits).insert k r).get? k' = s.contents.get? k'
    rw [Container.get?_insert, hs k']
    split
    · next hk => rw [hk, h]
    · rfl

/-- What the copy has after the commits of a batch, under the refined policy. -/
theorem get?_replay_batchCommits {copy c : Container} {batch : List (Value × Record)}
    (h : ∀ k, copy.get? k = c.get? k) (k : Value) :
    (replay copy (Store.batchCommits true (c.insertAll batch) (Store.splitBatch c batch).1
      (Store.splitBatch c batch).2)).get? k
      = ((c.insertAll batch).insertAll (Store.splitBatch c batch).2).get? k := by
  have hrecords (base : Container) (hbase : ∀ k, base.get? k = (c.insertAll batch).get? k) :
      (replay base (if true && !(Store.splitBatch c batch).2.isEmpty then
        [.batch (Store.splitBatch c batch).2] else [])).get? k
        = ((c.insertAll batch).insertAll (Store.splitBatch c batch).2).get? k := by
    cases hin : (Store.splitBatch c batch).2 with
    | nil => exact hbase k
    | cons e es =>
      show (base.insertAll (e :: es)).get? k = _
      rw [Container.get?_insertAll, Container.get?_insertAll _ (e :: es), hbase k]
  rw [Store.batchCommits, replay_append]
  apply hrecords
  intro k'
  cases hstruct : (Store.splitBatch c batch).1 with
  | true => rfl
  | false =>
    rw [Store.insertAll_of_inPlace hstruct]
    exact h k'

theorem mirrored_putAll_iff {s : Store} (hs : s.Mirrored initial) {batch : List (Value × Record)}
    (hrefined : s.isRefined = true) (hnull : batch.any (·.1.isNull) = false) :
    (Store.putAll batch s).2.Mirrored initial ↔ ¬ Overtaken s.contents batch := by
  rw [← insertAll_inPlace_iff]
  refine forall_congr' fun k => ?_
  simp only [Store.putAll, hnull, Bool.false_eq_true, if_false, hrefined]
  rw [replay_commit, get?_replay_batchCommits hs]
  rfl

theorem mirrored_putAll_whole {s : Store} (hs : s.Mirrored initial) {batch : List (Value × Record)}
    (hrefined : s.isRefined = false) : (Store.putAll batch s).2.Mirrored initial := by
  unfold Store.putAll
  split
  · exact hs
  · intro k
    simp only [hrefined, Store.batchCommits, Bool.not_false, Bool.true_and, Bool.false_and,
      Bool.false_eq_true, if_false, List.append_nil]
    split
    · exact mirrored_replaceContents s _ k
    · next hnone =>
      simp only [Bool.or_eq_true, Bool.not_eq_true', not_or, Bool.not_eq_true, Bool.not_eq_false,
        List.isEmpty_iff] at hnone
      rw [Store.eq_nil_of_splitBatch hnone.1 hnone.2, replay_commit]
      exact hs k

/-- A write keeps a copy up to date exactly when it does not overtake itself. -/
theorem mirrored_after_iff (s : Store) (w : Write) (hs : s.Mirrored initial) :
    (w.after s).Mirrored initial ↔ ¬ w.Overtakes s := by
  rcases w.after_cases s with ⟨hnone, hsingle⟩ | hbatch
  · refine iff_of_true (mirrored_single hs hsingle) ?_
    rintro ⟨_, _, hover⟩
    rw [hnone] at hover
    have hnodup : (keysOf ([] : List (Value × Record))).Nodup := List.nodup_nil
    exact not_overtaken_of_nodup hnodup s.contents hover
  · rw [hbatch]
    cases hrefined : s.isRefined with
    | false =>
      refine iff_of_true (mirrored_putAll_whole hs hrefined) ?_
      rintro ⟨h, _⟩
      rw [hrefined] at h
      cases h
    | true =>
      cases hnull : w.offered.any (·.1.isNull) with
      | true =>
        have hsame : (Store.putAll w.offered s).2 = s := by simp [Store.putAll, hnull]
        rw [hsame]
        refine iff_of_true hs ?_
        rintro ⟨_, h, _⟩
        obtain ⟨e, he, hk⟩ := List.any_eq_true.1 hnull
        rw [h e he] at hk
        cases hk
      | false =>
        have hkeys : ∀ e ∈ w.offered, e.1.isNull = false := by simpa using hnull
        rw [mirrored_putAll_iff hs hrefined hnull, Write.Overtakes]
        simp only [hrefined, true_and]
        exact not_congr ⟨fun h => ⟨hkeys, h⟩, fun h => h.2⟩

end

/-! ## Histories -/

/-- **Write-through.**  Along a history the durable copy is up to date after every operation exactly
when no write overtakes itself. -/
theorem trail_mirrored_iff (initial : Container) (settings : Settings) (actions : List Action) :
    (∀ s ∈ History.trail (Store.hydrate initial settings) actions, s.Mirrored initial) ↔
      ∀ turn ∈ History.turns (Store.hydrate initial settings) actions,
        ¬ turn.2.Overtakes turn.1 :=
  History.trail_iff mirrored_after_iff (fun s _ => mirrored_root s) actions _ fun _ => rfl

/-- A record is put over itself and then replaced in the same batch: the copy keeps it. -/
theorem repeated_key_not_mirrored :
    let a : Record := ⟨0, "i64"⟩
    let b : Record := ⟨1, "i64"⟩
    let initial := Container.empty.insert (.integer 7) a
    ¬ ∀ s ∈ History.trail (Store.hydrate initial {})
      [.write (.putAll [(.integer 7, a), (.integer 7, b)])], s.Mirrored initial := by
  intro a b initial h
  have hkey := h _ List.mem_cons_self (.integer 7)
  exact absurd hkey (by decide)

end EntityStore
