import EntityStore.Proofs.Storage.History

/-!
# Batches entry by entry

Filing a batch leaves what putting its entries one after the other leaves, and hands over the
commits of these puts merged: the container once if one of them commits it, and behind it the
records that the others commit alone, in the order of the batch.

    (afterAll s (puts es)).contents = s.contents.insertAll es                 (contents_afterAll)
    splitBatch s.contents es = ((commitsOf s (puts es)).any (·.isContainer),
      (commitsOf s (puts es)).filterMap (·.alone?))                               (splitBatch_eq)

the second under the refined policy, where a put may commit its record alone.
-/

namespace EntityStore

/-- The entry of a record that is committed alone. -/
def Commit.alone? : Commit → Option (Value × Record)
  | record k r => some (k, r)
  | _ => none

/-- The commits that a write hands over. -/
def Write.handedOver (s : Store) (w : Write) : List Commit :=
  (w.after s).commits.drop s.commits.length

/-- The commits that some writes hand over, one after the other. -/
def Write.commitsOf (s : Store) (ws : List Write) : List Commit :=
  (turns s ws).flatMap fun turn => turn.2.handedOver turn.1

/-- The entries put one by one. -/
def Write.puts (es : List (Value × Record)) : List Write := es.map fun e => .put e.1 e.2

theorem Commit.any_isRecord (commits : List Commit) :
    commits.any (·.isRecord) = !(commits.filterMap Commit.alone?).isEmpty := by
  induction commits with
  | nil => rfl
  | cons commit commits ih =>
    cases commit with
    | container _ => exact ih
    | record _ _ => rfl
    | batch _ => exact ih

namespace Write

section
variable {s : Store} {k : Value} {r : Record} {es : List (Value × Record)}

/-! ## One put -/

/-- What a put commits. -/
def committed (s : Store) (k : Value) (r : Record) : Commit :=
  if s.contents.get? k = some r ∧ s.isRefined then .record k r
  else .container (s.contents.insert k r)

theorem after_put (hk : k ≠ .null) :
    (put k r).after s =
      { s with contents := s.contents.insert k r }.commit [committed s k r] := by
  have hnull : k.isNull = false := by
    rw [← Bool.not_eq_true, Value.isNull_iff]
    exact hk
  simp only [after, Store.put, hnull, Bool.false_eq_true, if_false]
  rfl

theorem handedOver_put (hk : k ≠ .null) : (put k r).handedOver s = [committed s k r] := by
  rw [handedOver, after_put hk]
  exact List.drop_left

theorem committed_refined (h : s.isRefined = true) :
    committed s k r =
      if s.contents.get? k = some r then .record k r else .container (s.contents.insert k r) := by
  simp only [committed, h, and_true]

/-! ## All puts -/

theorem puts_cons (e : Value × Record) (es : List (Value × Record)) :
    puts (e :: es) = put e.1 e.2 :: puts es := rfl

theorem commitsOf_cons (w : Write) (ws : List Write) :
    commitsOf s (w :: ws) = w.handedOver s ++ commitsOf (w.after s) ws := rfl

theorem contents_afterAll (hkeys : ∀ e ∈ es, e.1 ≠ .null) :
    (afterAll s (puts es)).contents = s.contents.insertAll es := by
  induction es generalizing s with
  | nil => rfl
  | cons e es ih =>
    rw [List.forall_mem_cons] at hkeys
    show (afterAll ((put e.1 e.2).after s) (puts es)).contents = _
    rw [ih hkeys.2, after_put hkeys.1]
    rfl

/-- Which puts are in place and which are not is what the batch finds out about its entries. -/
theorem splitBatch_eq (hrefined : s.isRefined = true) (hkeys : ∀ e ∈ es, e.1 ≠ .null) :
    Store.splitBatch s.contents es =
      ((commitsOf s (puts es)).any (·.isContainer),
        (commitsOf s (puts es)).filterMap (·.alone?)) := by
  -- The store that the other puts find is refined as well.
  induction es generalizing s with
  | nil => rfl
  | cons e es ih =>
    rw [List.forall_mem_cons] at hkeys
    have hafter := after_put (s := s) (k := e.1) (r := e.2) hkeys.1
    have hrest : Store.splitBatch (s.contents.insert e.1 e.2) es =
        ((commitsOf ((put e.1 e.2).after s) (puts es)).any (·.isContainer),
          (commitsOf ((put e.1 e.2).after s) (puts es)).filterMap (·.alone?)) := by
      rw [← ih _ hkeys.2, hafter]
      · rfl
      · rw [hafter]
        exact hrefined
    rw [Store.splitBatch_cons, hrest, puts_cons, commitsOf_cons, handedOver_put hkeys.1,
      committed_refined hrefined]
    by_cases h : s.contents.get? e.1 = some e.2
    · rw [if_pos h, if_pos h]
      rfl
    · rw [if_neg h, if_neg h]
      rfl

end

end Write

/-! ## The batch -/

/-- Under the policy of whole containers a batch that is not empty commits the container. -/
theorem Store.batchCommits_whole {c contents : Container} {es : List (Value × Record)}
    (h : es ≠ []) : batchCommits false contents (splitBatch c es).1 (splitBatch c es).2 =
      [.container contents] := by
  rw [batchCommits]
  cases hstruct : (splitBatch c es).1 with
  | true => simp
  | false =>
    have hin : (splitBatch c es).2 ≠ [] := fun hnil => h (eq_nil_of_splitBatch hstruct hnil)
    simp [hin]

/-- **A batch is its entries put one by one, with the commits merged.**  A `null` key anywhere in it
refuses the batch.  Else the store is left with what the puts leave.  For a batch that is not empty
the container is committed, and nothing else, where containers are committed whole; under the
refined policy the container is committed if one of the puts commits it, and then those records that
puts commit alone. -/
theorem putAll_merges_puts (s : Store) (batch : List (Value × Record)) :
    ((∃ e ∈ batch, e.1 = .null) →
      Store.putAll batch s = (.error .nullKeyInBatch, s) ∧
        Failure.category .nullKeyInBatch = .argument) ∧
    ((∀ e ∈ batch, e.1 ≠ .null) →
      let each := Write.commitsOf s (Write.puts batch)
      let contents := (Write.afterAll s (Write.puts batch)).contents
      ∃ merged, Store.putAll batch s = (.ok (), { s with contents := contents }.commit merged) ∧
        (batch = [] → merged = []) ∧
        (batch ≠ [] → s.isRefined = false → merged = [.container contents]) ∧
        (s.isRefined = true → merged =
          (if each.any (·.isContainer) then [.container contents] else []) ++
          (if each.any (·.isRecord) then [.batch (each.filterMap (·.alone?))] else []))) := by
  constructor
  · rintro ⟨e, he, hnull⟩
    have hany : batch.any (·.1.isNull) = true := by
      rw [List.any_eq_true]
      exact ⟨e, he, Value.isNull_iff.2 hnull⟩
    exact ⟨by rw [Store.putAll, if_pos hany], rfl⟩
  · intro hkeys each contents
    have hany : ¬ batch.any (·.1.isNull) = true := by
      rw [List.any_eq_true]
      rintro ⟨e, he, hnull⟩
      exact hkeys e he (Value.isNull_iff.1 hnull)
    have hcontents : contents = s.contents.insertAll batch := Write.contents_afterAll hkeys
    refine ⟨Store.batchCommits s.isRefined contents (Store.splitBatch s.contents batch).1
      (Store.splitBatch s.contents batch).2, ?_, ?_, ?_, ?_⟩
    · rw [Store.putAll, if_neg hany, hcontents]
    · rintro rfl
      simp [Store.splitBatch, Store.batchCommits]
    · intro hne hwhole
      rw [hwhole]
      exact Store.batchCommits_whole hne
    · intro hrefined
      rw [hrefined, Write.splitBatch_eq hrefined hkeys, Commit.any_isRecord]
      simp [Store.batchCommits, each]

/-- A batch that puts a record over itself, then another one there, and another one over itself. -/
theorem putAll_merges_puts_returning_record :
    let a : Record := ⟨0, "i64"⟩
    let b : Record := ⟨1, "i64"⟩
    let start := Store.hydrate (Container.empty.insert (.integer 7) a) {}
    let batch : List (Value × Record) :=
      [(.integer 7, a), (.integer 7, b), (.integer 8, a), (.integer 8, a)]
    (∀ e ∈ batch, e.1 ≠ .null) ∧ start.isRefined = true ∧
      (Store.putAll batch start).2.commits =
        [.container (Write.afterAll start (Write.puts batch)).contents,
          .batch [(.integer 7, a), (.integer 8, a)]] := by
  intro a b start batch
  have hkeys : ∀ e ∈ batch, e.1 ≠ .null := by decide
  have hrefined : start.isRefined = true := rfl
  refine ⟨hkeys, hrefined, ?_⟩
  obtain ⟨merged, hrun, -, -, hmerged⟩ := (putAll_merges_puts start batch).2 hkeys
  rw [hrun, hmerged hrefined]
  rfl

end EntityStore
