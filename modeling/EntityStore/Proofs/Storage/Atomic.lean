import EntityStore.Proofs.Query.DerivedFind
import EntityStore.Repository.Basic

/-!
# Operations that fail

An operation that fails has done nothing: it settles all that can fail before it changes the store.
Only transactions are different, since they keep what their work changed.

    op s = (.error failure, t) → t = s  for every operation but a transaction  (atomic_operations)
-/

namespace EntityStore

/-- Where the operation fails, the store is as it was. -/
def Atomic {α : Type} (op : StoreM α) : Prop :=
  ∀ s failure t, op s = (.error failure, t) → t = s

/-- The operation never changes a store. -/
def ReadOnly {α : Type} (op : StoreM α) : Prop := ∀ s, (op s).2 = s

section
variable {α β : Type}

theorem ReadOnly.atomic {op : StoreM α} (h : ReadOnly op) : Atomic op := by
  intro s failure t hop
  rw [← h s, hop]

theorem Atomic.snd_eq {op : StoreM α} (hop : Atomic op) {s : Store}
    (h : (op s).1.isOk = false) : (op s).2 = s := by
  rcases hs : op s with ⟨outcome, t⟩
  rw [hs] at h
  cases outcome with
  | error failure => exact hop s failure t hs
  | ok a => cases h

theorem readOnly_settled (outcome : Except Failure α) : ReadOnly (Store.settled outcome) :=
  fun _ => rfl

theorem readOnly_look (g : Store → Except Failure α) : ReadOnly (Store.look g) := fun _ => rfl

/-- What only reads may go first. -/
theorem ReadOnly.bind_atomic {op : StoreM α} {f : α → StoreM β} (hop : ReadOnly op)
    (hf : ∀ a, Atomic (f a)) : Atomic (op >>= f) := by
  intro s failure t h
  have hread := hop s
  rcases hs : op s with ⟨outcome, s'⟩
  rw [hs] at hread
  cases outcome with
  | error failure' =>
    rw [Store.bind_error hs] at h
    cases h
    exact hread
  | ok a =>
    rw [Store.bind_ok hs] at h
    rw [hf a s' failure t h]
    exact hread

/-- What cannot fail may go last. -/
theorem Atomic.bind_pure {op : StoreM α} (hop : Atomic op) (f : α → β) :
    Atomic (op >>= fun a => pure (f a)) := by
  intro s failure t h
  rcases hs : op s with ⟨outcome, s'⟩
  cases outcome with
  | error failure' =>
    rw [Store.bind_error hs] at h
    cases h
    exact hop s failure t hs
  | ok a =>
    rw [Store.bind_ok hs] at h
    cases h

/-- Arguments that are refused are refused before anything else, and nothing fails afterwards. -/
theorem atomic_refusing {refused : Prop} [Decidable refused] {failure : Failure} {op : StoreM α}
    (hop : ∀ s, ∃ a, (op s).1 = .ok a) :
    Atomic fun s => if refused then (.error failure, s) else op s := by
  intro s failure' t h
  replace h : (if refused then (.error failure, s) else op s) = (.error failure', t) := h
  by_cases hrefused : refused
  · rw [if_pos hrefused] at h
    cases h
    rfl
  · rw [if_neg hrefused] at h
    obtain ⟨a, ha⟩ := hop s
    rw [h] at ha
    cases ha

theorem atomic_settled_bind (outcome : Except Failure α) {f : α → StoreM β}
    (hf : ∀ a, Atomic (f a)) : Atomic (Store.settled outcome >>= f) :=
  (readOnly_settled outcome).bind_atomic hf

end

/-! ## Stores -/

namespace Store

theorem atomic_put (k : Value) (r : Record) : Atomic (put k r) :=
  atomic_refusing fun _ => ⟨_, rfl⟩

theorem atomic_putAll (batch : List (Value × Record)) : Atomic (putAll batch) :=
  atomic_refusing fun _ => ⟨_, rfl⟩

theorem atomic_remove (k : Value) : Atomic (remove k) :=
  atomic_refusing fun _ => ⟨_, rfl⟩

theorem atomic_removeAll (keys : List Value) : Atomic (removeAll keys) :=
  atomic_refusing fun _ => ⟨_, rfl⟩

/-- The filter decides all records before the first of them goes. -/
theorem atomic_removeWhere (f : Filter) : Atomic (removeWhere f) := by
  intro s failure t h
  unfold removeWhere at h
  split at h
  · cases h; rfl
  · cases h

theorem atomic_clear : Atomic clear := by
  intro s failure t h
  cases h

end Store

/-! ## Typed access and built conditions -/

namespace Catalog

theorem atomic_update (catalog : Catalog) (type : EntityType) (record : Record) :
    Atomic (catalog.update type record) := by
  unfold update
  refine atomic_settled_bind _ fun schema => atomic_settled_bind _ fun entry => ?_
  exact (Store.atomic_put entry.1 entry.2).bind_pure _

theorem atomic_updateAll (catalog : Catalog) (type : EntityType) (records : List Record) :
    Atomic (catalog.updateAll type records) := by
  unfold updateAll
  refine atomic_settled_bind _ fun schema => atomic_settled_bind _ fun batch => ?_
  exact (Store.atomic_putAll batch).bind_pure _

theorem atomic_delete (catalog : Catalog) (id : Value) : Atomic (catalog.delete id) :=
  (Store.atomic_remove id).bind_pure _

theorem atomic_deleteIds (catalog : Catalog) (ids : List Value) : Atomic (catalog.deleteIds ids) :=
  Store.atomic_removeAll ids

end Catalog

theorem ConditionBuilder.atomic_removeAll (b : ConditionBuilder) : Atomic b.removeAll :=
  atomic_settled_bind _ Store.atomic_removeWhere

/-! ## Derived queries -/

namespace DerivedQuery

theorem atomic_execute (q : DerivedQuery) (args : List Argument) : Atomic (q.execute args) := by
  unfold execute
  refine atomic_settled_bind _ fun f => ?_
  split
  · exact (Store.atomic_removeWhere f).bind_pure _
  · exact (readOnly_look _).atomic

theorem readOnly_execute {q : DerivedQuery} (h : q.kind ≠ .derivedDelete) (args : List Argument) :
    ReadOnly (q.execute args) := by
  intro s
  rw [execute_eq h]

end DerivedQuery

/-! ## Repositories -/

namespace Manager

theorem atomic_findPage (m : Manager) (request : PageRequest) : Atomic (m.findPage request) := by
  intro s failure t h
  unfold findPage at h
  rw [Store.settled_bind] at h
  split at h
  · next query hquery =>
    have hkind : query.kind ≠ .derivedDelete := by
      cases hquery
      intro h
      cases h
    refine (DerivedQuery.readOnly_execute hkind _).bind_atomic (fun result => ?_) s failure t h
    exact (readOnly_settled _).atomic
  · cases h; rfl

theorem atomic_callBase (m : Manager) (method : BaseMethod) (args : List Argument) :
    Atomic (m.callBase method args) := by
  cases method with
  | save =>
    refine atomic_settled_bind _ fun record => ?_
    exact (Catalog.atomic_update m.catalog m.type record).bind_pure _
  | saveAll =>
    refine atomic_settled_bind _ fun records => ?_
    exact (Catalog.atomic_updateAll m.catalog m.type records).bind_pure _
  | findById =>
    refine atomic_settled_bind _ fun id => ?_
    exact (readOnly_look _).atomic.bind_pure _
  | existsById =>
    refine atomic_settled_bind _ fun id => ?_
    exact (readOnly_look _).atomic.bind_pure _
  | findAll =>
    unfold callBase
    dsimp only
    split
    · next request _ => exact (atomic_findPage m request).bind_pure _
    · exact (readOnly_look _).atomic.bind_pure _
  | findAllById => exact (readOnly_look _).atomic.bind_pure _
  | count => exact (readOnly_look _).atomic.bind_pure _
  | deleteById =>
    refine atomic_settled_bind _ fun id => ?_
    refine Atomic.bind_pure (atomic_settled_bind _ fun id => ?_) _
    exact Catalog.atomic_delete m.catalog id
  | delete =>
    refine atomic_settled_bind _ fun record => ?_
    refine Atomic.bind_pure (atomic_settled_bind _ fun key => ?_) _
    exact Catalog.atomic_delete m.catalog key
  | deleteAll =>
    unfold callBase
    dsimp only
    split
    · refine atomic_settled_bind _ fun records => ?_
      refine Atomic.bind_pure (atomic_settled_bind _ fun ids => ?_) _
      exact Catalog.atomic_deleteIds m.catalog ids
    · exact Store.atomic_clear.bind_pure _
  | deleteAllById =>
    refine Atomic.bind_pure (atomic_settled_bind _ fun ids => ?_) _
    exact Catalog.atomic_deleteIds m.catalog ids

end Manager

theorem Repository.atomic_invoke (r : Repository) (name : String) (args : List Argument) :
    Atomic (r.invoke name args) := by
  unfold Repository.invoke
  split
  · exact (readOnly_settled _).atomic
  · next method _ =>
    unfold Manager.call
    split
    · next base _ => exact Manager.atomic_callBase r.manager base args
    · exact (readOnly_settled _).atomic
  · exact (readOnly_settled _).atomic
  · exact (readOnly_settled _).atomic
  · next query _ => exact DerivedQuery.atomic_execute query args

/-- **Operations that fail change nothing**, neither what is stored nor what is committed. -/
theorem atomic_operations :
    (∀ k r, Atomic (Store.put k r)) ∧ (∀ batch, Atomic (Store.putAll batch)) ∧
    (∀ k, Atomic (Store.remove k)) ∧ (∀ keys, Atomic (Store.removeAll keys)) ∧
    (∀ f, Atomic (Store.removeWhere f)) ∧
    (∀ (catalog : Catalog) type record, Atomic (catalog.update type record)) ∧
    (∀ (catalog : Catalog) type records, Atomic (catalog.updateAll type records)) ∧
    (∀ (catalog : Catalog) id, Atomic (catalog.delete id)) ∧
    (∀ (catalog : Catalog) ids, Atomic (catalog.deleteIds ids)) ∧
    (∀ b : ConditionBuilder, Atomic b.removeAll) ∧
    ∀ (r : Repository) name args, Atomic (r.invoke name args) :=
  ⟨Store.atomic_put, Store.atomic_putAll, Store.atomic_remove, Store.atomic_removeAll,
    Store.atomic_removeWhere, Catalog.atomic_update, Catalog.atomic_updateAll,
    Catalog.atomic_delete, Catalog.atomic_deleteIds, ConditionBuilder.atomic_removeAll,
    Repository.atomic_invoke⟩

end EntityStore
