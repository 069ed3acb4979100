import EntityStore.Proofs.Storage.Batch
import EntityStore.Proofs.Storage.Operation

/-!
# Histories of a store

What clients do to a store is a row of actions: writes, alone or as the work of a transaction.  A
write may fail, and the work of a transaction may go on after it or give up.  A history has a turn
for each write, with the store that the write finds (`History.turns`), and a trail of the stores
after each operation (`History.trail`).

    P is kept by good writes and by root commits → P s →
      ((∀ t ∈ History.trail s as, P t) ↔ every turn of History.turns s as is good)    (trail_iff)
-/

namespace EntityStore

/-- A call that may change a store. -/
inductive Write
  | put (key : Value) (record : Record)
  | putAll (batch : List (Value × Record))
  | remove (key : Value)
  | removeAll (keys : List Value)
  | removeWhere (filter : Filter)
  | clear
  | update (catalog : Catalog) (type : EntityType) (record : Record)
  | updateAll (catalog : Catalog) (type : EntityType) (records : List Record)

namespace Write

/-- The store after a write, whether the write succeeded or not. -/
def after : Write → Store → Store
  | put key record, s => (Store.put key record s).2
  | putAll batch, s => (Store.putAll batch s).2
  | remove key, s => (Store.remove key s).2
  | removeAll keys, s => (Store.removeAll keys s).2
  | removeWhere filter, s => (Store.removeWhere filter s).2
  | clear, s => (Store.clear s).2
  | update catalog type record, s => (catalog.update type record s).2
  | updateAll catalog type records, s => (catalog.updateAll type records s).2

/-- The entries that a write offers to a store as one batch. -/
def offered : Write → List (Value × Record)
  | putAll batch => batch
  | updateAll catalog type records =>
    match catalog.schema type with
    | .ok schema => (records.mapM schema.entry).toOption.getD []
    | .error _ => []
  | _ => []

/-- Each write of a row with the store that it finds. -/
def turns (s : Store) : List Write → List (Store × Write)
  | [] => []
  | w :: ws => (s, w) :: turns (w.after s) ws

/-- Writes one after the other. -/
def afterAll (s : Store) (ws : List Write) : Store := ws.foldl (fun s w => w.after s) s

end Write

/-- Something that a client does.  The work of a transaction is some writes and then a success or a
failure; transactions do not nest. -/
inductive Action
  | write (w : Write)
  | transaction (work : List Write) (outcome : Except Failure Unit)

namespace Action

def after : Action → Store → Store
  | write w, s => w.after s
  | transaction work outcome, s =>
    (Store.transaction (fun s => (outcome, Write.afterAll s work)) s).2

def turns (s : Store) : Action → List (Store × Write)
  | write w => [(s, w)]
  | transaction work _ => Write.turns s work

/-- The stores after each operation of an action: after each write and at its end. -/
def trail (s : Store) (a : Action) : List Store :=
  (a.turns s).map (fun turn => turn.2.after turn.1) ++ [a.after s]

end Action

namespace History

def turns (s : Store) : List Action → List (Store × Write)
  | [] => []
  | a :: as => a.turns s ++ turns (a.after s) as

/-- The stores after each operation of a row of actions. -/
def trail (s : Store) : List Action → List Store
  | [] => []
  | a :: as => a.trail s ++ trail (a.after s) as

end History

/-! ## What a write can do -/

namespace Write

/-- A store that a write other than a batch may leave: the same one, one with new contents that were
committed whole, or one with a record put over itself and committed alone. -/
inductive Single (s : Store) : Store → Prop
  | unchanged : Single s s
  | replaced (contents : Container) : Single s (s.replaceContents contents)
  | inPlace (k : Value) (r : Record) (h : s.contents.get? k = some r) :
    Single s (s.commit [.record k r])

theorem single_put (k : Value) (r : Record) (s : Store) : Single s (Store.put k r s).2 := by
  unfold Store.put
  split
  · exact .unchanged
  · by_cases h : s.contents.get? k = some r ∧ s.isRefined = true
    · simp only [h, and_self, if_true, Container.insert_eq_self h.1]
      exact .inPlace k r h.1
    · simp only [if_neg h]
      exact .replaced _

theorem single_remove (k : Value) (s : Store) : Single s (Store.remove k s).2 := by
  unfold Store.remove
  split
  · exact .unchanged
  · exact .replaced _

theorem single_removeKeys (keys : List Value) (s : Store) : Single s (Store.removeKeys keys s).2 :=
  .replaced _

theorem single_removeAll (keys : List Value) (s : Store) : Single s (Store.removeAll keys s).2 := by
  unfold Store.removeAll
  split
  · exact .unchanged
  · exact single_removeKeys keys s

theorem single_removeWhere (f : Filter) (s : Store) : Single s (Store.removeWhere f s).2 := by
  unfold Store.removeWhere
  split
  · exact .unchanged
  · next keys _ => exact single_removeKeys keys s

theorem single_update (catalog : Catalog) (type : EntityType) (record : Record) (s : Store) :
    Single s (catalog.update type record s).2 := by
  unfold Catalog.update
  rw [Store.settled_bind]
  split
  · next schema _ =>
    rw [Store.settled_bind]
    split
    · next entry _ =>
      obtain ⟨key, r⟩ := entry
      rw [Store.bind_pure_snd]
      exact single_put key r s
    · exact .unchanged
  · exact .unchanged

theorem putAll_nil_snd (s : Store) : (Store.putAll [] s).2 = s := by
  simp [Store.putAll, Store.splitBatch, Store.batchCommits, Store.commit, Container.insertAll]

theorem updateAll_snd (catalog : Catalog) (type : EntityType) (records : List Record) (s : Store) :
    (catalog.updateAll type records s).2 =
      (Store.putAll (updateAll catalog type records).offered s).2 := by
  unfold Catalog.updateAll
  rw [Store.settled_bind, offered]
  cases catalog.schema type with
  | error failure => exact (putAll_nil_snd s).symm
  | ok schema =>
    dsimp only
    rw [Store.settled_bind]
    cases records.mapM schema.entry with
    | error failure => exact (putAll_nil_snd s).symm
    | ok batch => exact Store.bind_pure_snd _ _ s

/-- A write is a batch, or offers none and changes a store in one of three ways. -/
theorem after_cases (w : Write) (s : Store) :
    (w.offered = [] ∧ Single s (w.after s)) ∨ w.after s = (Store.putAll w.offered s).2 := by
  cases w with
  | put k r => exact .inl ⟨rfl, single_put k r s⟩
  | putAll batch => exact .inr rfl
  | remove k => exact .inl ⟨rfl, single_remove k s⟩
  | removeAll keys => exact .inl ⟨rfl, single_removeAll keys s⟩
  | removeWhere f => exact .inl ⟨rfl, single_removeWhere f s⟩
  | clear => exact .inl ⟨rfl, .replaced .empty⟩
  | update catalog type record => exact .inl ⟨rfl, single_update catalog type record s⟩
  | updateAll catalog type records => exact .inr (updateAll_snd catalog type records s)

end Write

/-! ## What a history keeps -/

namespace History

/-- The end of a transaction keeps its work and may commit the whole container once more. -/
theorem transaction_after (work : List Write) (outcome : Except Failure Unit) (s : Store) :
    let t := Write.afterAll s work
    (Action.transaction work outcome).after s = t ∨
      (Action.transaction work outcome).after s = t.commit [.container t.contents] := by
  simp only [Action.after, Store.transaction]
  cases outcome with
  | error failure => exact .inl rfl
  | ok _ =>
    dsimp only
    split
    · exact .inr rfl
    · exact .inl rfl

section
variable {P : Store → Prop} {good : Store → Write → Prop}
  (hwrite : ∀ s w, P s → (P (w.after s) ↔ good s w))
  (hroot : ∀ s, P s → P (s.commit [.container s.contents]))

include hwrite in
theorem turns_iff (ws : List Write) (s : Store) (hs : P s) :
    (∀ turn ∈ Write.turns s ws, P (turn.2.after turn.1)) ↔
      ∀ turn ∈ Write.turns s ws, good turn.1 turn.2 := by
  induction ws generalizing s with
  | nil => simp [Write.turns]
  | cons w ws ih =>
    simp only [Write.turns, List.forall_mem_cons]
    rw [hwrite s w hs]
    refine and_congr_right fun hgood => ih (w.after s) ?_
    exact (hwrite s w hs).2 hgood

theorem afterAll_of_turns (ws : List Write) (s : Store) (hs : P s)
    (h : ∀ turn ∈ Write.turns s ws, P (turn.2.after turn.1)) : P (Write.afterAll s ws) := by
  induction ws generalizing s with
  | nil => exact hs
  | cons w ws ih =>
    simp only [Write.turns, List.forall_mem_cons] at h
    exact ih (w.after s) h.1 h.2

include hroot in
/-- The end of an action has what all its writes leave. -/
theorem after_of_turns (a : Action) (s : Store) (hs : P s)
    (h : ∀ turn ∈ a.turns s, P (turn.2.after turn.1)) : P (a.after s) := by
  cases a with
  | write w => exact h (s, w) List.mem_cons_self
  | transaction work outcome =>
    have hwork : P (Write.afterAll s work) := afterAll_of_turns work s hs h
    rcases transaction_after work outcome s with hend | hend
    · rw [hend]; exact hwork
    · rw [hend]; exact hroot _ hwork

include hwrite hroot in
theorem action_trail_iff (a : Action) (s : Store) (hs : P s) :
    (∀ t ∈ a.trail s, P t) ↔ ∀ turn ∈ a.turns s, good turn.1 turn.2 := by
  have hturns : (∀ turn ∈ a.turns s, P (turn.2.after turn.1)) ↔
      ∀ turn ∈ a.turns s, good turn.1 turn.2 := by
    cases a with
    | write w => simpa [Action.turns] using hwrite s w hs
    | transaction work outcome => exact turns_iff hwrite work s hs
  simp only [Action.trail, List.forall_mem_append, List.forall_mem_map, List.forall_mem_singleton]
  rw [and_iff_left_of_imp (after_of_turns hroot a s hs)]
  exact hturns

include hwrite hroot in
/-- What root commits keep, and writes keep exactly when they are good, holds along a whole history
exactly when all its writes are good. -/
theorem trail_iff (as : List Action) (s : Store) (hs : P s) :
    (∀ t ∈ trail s as, P t) ↔ ∀ turn ∈ turns s as, good turn.1 turn.2 := by
  induction as generalizing s with
  | nil => simp [trail, turns]
  | cons a as ih =>
    simp only [trail, turns, List.forall_mem_append]
    rw [← action_trail_iff hwrite hroot a s hs]
    refine and_congr_right fun htrail => ih (a.after s) ?_
    exact htrail _ (by simp [Action.trail])

end

end History

end EntityStore
