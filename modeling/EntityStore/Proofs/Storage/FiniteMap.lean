import EntityStore.Proofs.Storage.Atomic
import EntityStore.Proofs.Storage.History
import EntityStore.Proofs.Storage.Removal

/-!
# A store is a finite map

Reading a store never tells more than a finite map from keys to records: under each key the record
that the last write to touch the key left there, or what the store was hydrated with.  A write
touches a key when it succeeds and files a record under the key or drops the key.

    (w.after s).contents.get? k = (w.touch s k).getD (s.contents.get? k)              (get?_after)
    (afterAll s ws).contents.get? k = mapAfter s ws k                              (get?_afterAll)
    reading and removing agree with mapAfter                                  (agrees_with_mapAfter)
-/

namespace EntityStore

/-! ## What writes do to a map -/

namespace Write

/-- Whether a write succeeds on a store. -/
def succeeds : Write → Store → Bool
  | put key record, s => (Store.put key record s).1.isOk
  | putAll batch, s => (Store.putAll batch s).1.isOk
  | remove key, s => (Store.remove key s).1.isOk
  | removeAll keys, s => (Store.removeAll keys s).1.isOk
  | removeWhere filter, s => (Store.removeWhere filter s).1.isOk
  | clear, s => (Store.clear s).1.isOk
  | update catalog type record, s => (catalog.update type record s).1.isOk
  | updateAll catalog type records, s => (catalog.updateAll type records s).1.isOk

/-- The entries that a write files, in order. -/
def filed : Write → List (Value × Record)
  | put key record => [(key, record)]
  | update catalog type record =>
    ((catalog.schema type).bind fun schema => schema.entry record).toOption.toList
  | w => w.offered

/-- The record that a write files under a key last. -/
def files? (w : Write) (k : Value) : Option Record :=
  ((w.filed.filter fun e => e.1.cmp k = .eq).map (·.2)).getLast?

/-- Whether a write, where it succeeds, drops a key; `found` is what it finds under the key. -/
def drops (k : Value) (found : Option Record) : Write → Bool
  | remove key => key.cmp k = .eq
  | removeAll keys => keys.any (·.cmp k = .eq)
  | removeWhere f => found.any f.accepts
  | clear => true
  | _ => false

/-- What a write leaves under a key that it touches: a record or nothing. -/
def touch (w : Write) (s : Store) (k : Value) : Option (Option Record) :=
  if w.succeeds s then
    if w.drops k (s.contents.get? k) then some none else (w.files? k).map some
  else none

/-- The map after some writes: what the last of them to touch a key left there, or what the store
held before all of them. -/
def mapAfter (s : Store) (ws : List Write) (k : Value) : Option Record :=
  ((turns s ws).filterMap fun turn => turn.2.touch turn.1 k).getLast?.getD (s.contents.get? k)

/-! ## One write -/

theorem after_of_fails {w : Write} {s : Store} (h : w.succeeds s = false) : w.after s = s := by
  cases w with
  | put key record => exact (Store.atomic_put key record).snd_eq h
  | putAll batch => exact (Store.atomic_putAll batch).snd_eq h
  | remove key => exact (Store.atomic_remove key).snd_eq h
  | removeAll keys => exact (Store.atomic_removeAll keys).snd_eq h
  | removeWhere filter => exact (Store.atomic_removeWhere filter).snd_eq h
  | clear => exact Store.atomic_clear.snd_eq h
  | update catalog type record => exact (Catalog.atomic_update catalog type record).snd_eq h
  | updateAll catalog type records => exact (Catalog.atomic_updateAll catalog type records).snd_eq h

theorem files?_eq (w : Write) (k : Value) : w.files? k = (recordsOf k w.filed).getLast? := by
  simp only [files?, recordsOf, Value.cmp_eq_iff]

/-- What a write that drops nothing leaves. -/
theorem get?_of_filed {w : Write} {s : Store} {k : Value}
    (hdrops : ∀ found, w.drops k found = false)
    (h : (w.after s).contents = s.contents.insertAll w.filed) :
    (w.after s).contents.get? k =
      if w.drops k (s.contents.get? k) then none else (w.files? k).or (s.contents.get? k) := by
  rw [h, Container.get?_insertAll, hdrops, files?_eq]
  rfl

theorem contents_put {key : Value} {record : Record} {s : Store}
    (h : (Store.put key record s).1.isOk) :
    (Store.put key record s).2.contents = s.contents.insertAll [(key, record)] := by
  unfold Store.put at h ⊢
  split at h
  · cases h
  · next hkey => rw [if_neg hkey]; rfl

theorem contents_putAll {batch : List (Value × Record)} {s : Store}
    (h : (Store.putAll batch s).1.isOk) :
    (Store.putAll batch s).2.contents = s.contents.insertAll batch := by
  unfold Store.putAll at h ⊢
  split at h
  · cases h
  · next hkeys => rw [if_neg hkeys]; rfl

theorem contents_remove {key : Value} {s : Store} (h : (Store.remove key s).1.isOk) :
    (Store.remove key s).2.contents = s.contents.erase key := by
  unfold Store.remove at h ⊢
  split at h
  · cases h
  · next hkey => rw [if_neg hkey]; rfl

theorem contents_removeAll {keys : List Value} {s : Store} (h : (Store.removeAll keys s).1.isOk) :
    (Store.removeAll keys s).2.contents = s.contents.eraseAll keys := by
  unfold Store.removeAll at h ⊢
  split at h
  · cases h
  · next hkeys => rw [if_neg hkeys]; rfl

theorem contents_update {catalog : Catalog} {type : EntityType} {record : Record} {s : Store}
    (h : (catalog.update type record s).1.isOk) :
    (catalog.update type record s).2.contents =
      s.contents.insertAll (update catalog type record).filed := by
  unfold Catalog.update at h ⊢
  rw [Store.settled_bind] at h ⊢
  rw [filed]
  cases hschema : catalog.schema type with
  | error failure => rw [hschema] at h; cases h
  | ok schema =>
    rw [hschema] at h
    dsimp only [Except.bind] at h ⊢
    rw [Store.settled_bind] at h ⊢
    cases hentry : schema.entry record with
    | error failure => rw [hentry] at h; cases h
    | ok entry =>
      rw [hentry] at h
      dsimp only at h ⊢
      rw [Store.bind_pure_isOk] at h
      rw [Store.bind_pure_snd]
      exact contents_put h

theorem contents_updateAll {catalog : Catalog} {type : EntityType} {records : List Record}
    {s : Store} (h : (catalog.updateAll type records s).1.isOk) :
    (catalog.updateAll type records s).2.contents =
      s.contents.insertAll (updateAll catalog type records).filed := by
  rw [updateAll_snd]
  refine contents_putAll ?_
  rw [offered]
  unfold Catalog.updateAll at h
  rw [Store.settled_bind] at h
  cases hschema : catalog.schema type with
  | error failure => rw [hschema] at h; cases h
  | ok schema =>
    rw [hschema] at h
    dsimp only at h ⊢
    rw [Store.settled_bind] at h
    cases hbatch : records.mapM schema.entry with
    | error failure => rw [hbatch] at h; cases h
    | ok batch =>
      rw [hbatch] at h
      dsimp only at h
      rwa [Store.bind_pure_isOk] at h

/-- What a write that succeeds leaves under a key. -/
theorem get?_after_of_succeeds {w : Write} {s : Store} (h : w.succeeds s = true) (k : Value) :
    (w.after s).contents.get? k =
      if w.drops k (s.contents.get? k) then none else (w.files? k).or (s.contents.get? k) := by
  cases w with
  | put key record => exact get?_of_filed (fun _ => rfl) (contents_put h)
  | putAll batch => exact get?_of_filed (fun _ => rfl) (contents_putAll h)
  | remove key =>
    have hdrops : drops k (s.contents.get? k) (remove key) = decide (k = key) := by
      rw [Bool.eq_iff_iff, drops, decide_eq_true_iff, decide_eq_true_iff, Value.cmp_eq_iff, eq_comm]
    rw [after, contents_remove h, Container.get?_erase, hdrops]
    simp only [decide_eq_true_eq]
    rfl
  | removeAll keys =>
    have hdrops : drops k (s.contents.get? k) (removeAll keys) = decide (k ∈ keys) := by
      rw [Bool.eq_iff_iff, drops, List.any_eq_true, decide_eq_true_iff]
      simp only [decide_eq_true_eq, Value.cmp_eq_iff, exists_eq_right]
    rw [after, contents_removeAll h, Container.get?_eraseAll, hdrops]
    simp only [decide_eq_true_eq]
    rfl
  | removeWhere filter =>
    rcases hremoved : Store.removeWhere filter s with ⟨outcome, t⟩
    rw [succeeds, hremoved] at h
    cases outcome with
    | error failure => cases h
    | ok n =>
      obtain ⟨-, -, rfl⟩ := Store.removeWhere_eq_ok_iff.1 hremoved
      rw [after, hremoved]
      exact Container.get?_without s.contents filter k
  | clear => rfl
  | update catalog type record => exact get?_of_filed (fun _ => rfl) (contents_update h)
  | updateAll catalog type records => exact get?_of_filed (fun _ => rfl) (contents_updateAll h)

/-- A write leaves what it does to a key that it touches, and other keys as they are. -/
theorem get?_after (w : Write) (s : Store) (k : Value) :
    (w.after s).contents.get? k = (w.touch s k).getD (s.contents.get? k) := by
  unfold touch
  cases hsucceeds : w.succeeds s with
  | false =>
    rw [after_of_fails hsucceeds]
    rfl
  | true =>
    rw [get?_after_of_succeeds hsucceeds]
    rw [if_pos rfl]
    split
    · rfl
    · cases w.files? k <;> rfl

/-! ## Rows of writes -/

theorem mapAfter_cons (s : Store) (w : Write) (ws : List Write) (k : Value) :
    mapAfter s (w :: ws) k = mapAfter (w.after s) ws k := by
  unfold mapAfter
  rw [turns, List.filterMap_cons, get?_after]
  cases w.touch s k with
  | none => rfl
  | some left => 
    rw [List.getLast?_cons]
    rfl

theorem get?_afterAll (s : Store) (ws : List Write) (k : Value) :
    (afterAll s ws).contents.get? k = mapAfter s ws k := by
  induction ws generalizing s with
  | nil => rfl
  | cons w ws ih =>
    rw [mapAfter_cons]
    exact ih (w.after s)

end Write

/-! ## Reading and removing -/

namespace Store

theorem records_eq_map (s : Store) :
    s.records.map some = s.contents.keys.map s.contents.get? := by
  rw [records, Container.records, Container.keys, keysOf, List.map_map, List.map_map]
  refine List.map_congr_left fun e he => ?_
  exact (Container.get?_eq_some_iff.2 he).symm

theorem removeAll_size (keys : List Value) (s : Store) :
    if keys.any (·.isNull) then removeAll keys s = (.error .nullKeyInRemoval, s)
    else ∃ n t, removeAll keys s = (.ok n, t) ∧ n + t.contents.size = s.contents.size := by
  unfold removeAll
  split
  · rfl
  · exact ⟨_, _, rfl, countPresent_add_size s.contents keys⟩

theorem removeWhere_size {f : Filter} {s t : Store} {n : Nat} (h : removeWhere f s = (.ok n, t)) :
    n + t.contents.size = s.contents.size := by
  obtain ⟨-, rfl, rfl⟩ := removeWhere_eq_ok_iff.1 h
  exact s.contents.size_without f

theorem exists_removeWhere_iff {f : Filter} {s : Store} :
    (∃ n t, removeWhere f s = (.ok n, t)) ↔
      ∀ k r, s.contents.get? k = some r → ∃ b, f r = .ok b := by
  have hrecords : (∀ r ∈ s.records, ∃ b, f r = .ok b) ↔
      ∀ k r, s.contents.get? k = some r → ∃ b, f r = .ok b := by
    simp only [Container.get?_eq_some_iff, records, Container.records, List.forall_mem_map,
      Prod.forall]
  rw [← hrecords]
  constructor
  · rintro ⟨n, t, h⟩
    exact (removeWhere_eq_ok_iff.1 h).1
  · intro h
    exact ⟨_, _, removeWhere_eq_ok_iff.2 ⟨h, rfl, rfl⟩⟩

end Store

/-- **A store is a finite map.**  After any writes to a store that was hydrated with anything, each
key reads as what the last of them to touch it left there; the records are those of the keys that
are present, each once, and there are as many as the size tells.  Putting and removing answer what
was under the key, and a removal of several keys or by a filter tells how much smaller the store
became.  They fail on a `null` key and on a filter that does not decide every record, and only
there. -/
theorem agrees_with_mapAfter (initial : Container) (settings : Settings) (ws : List Write) :
    let start := Store.hydrate initial settings
    let s := Write.afterAll start ws
    let m := Write.mapAfter start ws
    (∀ k, s.contents.get? k = m k ∧ s.contents.contains k = (m k).isSome) ∧
    (∃ keys : List Value, keys.Nodup ∧ (∀ k, k ∈ keys ↔ (m k).isSome) ∧
      s.records.map some = keys.map m ∧ s.contents.size = keys.length ∧
      (s.contents.isEmpty ↔ s.contents.size = 0)) ∧
    (∀ k r, (Store.put k r s).1 = if k.isNull then .error .nullKey else .ok (m k)) ∧
    (∀ batch : List (Value × Record), (Store.putAll batch s).1 =
      if batch.any (·.1.isNull) then .error .nullKeyInBatch else .ok ()) ∧
    (∀ k, (Store.remove k s).1 = if k.isNull then .error .nullKey else .ok (m k)) ∧
    (Store.clear s).1 = .ok () ∧
    (∀ keys : List Value,
      if keys.any (·.isNull) then Store.removeAll keys s = (.error .nullKeyInRemoval, s)
      else ∃ n t, Store.removeAll keys s = (.ok n, t) ∧
        n + t.contents.size = s.contents.size) ∧
    ∀ f : Filter,
      ((∃ n t, Store.removeWhere f s = (.ok n, t)) ↔ ∀ k r, m k = some r → ∃ b, f r = .ok b) ∧
      ∀ n t, Store.removeWhere f s = (.ok n, t) → n + t.contents.size = s.contents.size := by
  intro start s m
  have hm : m = s.contents.get? := funext fun k => (Write.get?_afterAll start ws k).symm
  rw [hm]
  refine ⟨fun k => ⟨rfl, rfl⟩, ⟨s.contents.keys, s.contents.nodup, fun k => ?_, s.records_eq_map,
    (List.length_map _).symm, ?_⟩, fun k r => ?_, fun batch => ?_, fun k => ?_, rfl,
    fun keys => s.removeAll_size keys,
    fun f => ⟨Store.exists_removeWhere_iff, fun n t => Store.removeWhere_size⟩⟩
  · rw [Container.mem_keys_iff, Option.isSome_iff_exists]
  · rw [Container.isEmpty, List.isEmpty_iff_length_eq_zero]
    rfl
  · unfold Store.put
    split <;> rfl
  · unfold Store.putAll
    split <;> rfl
  · unfold Store.remove
    split <;> rfl

/-- The integer one and the float one are different keys, and so are the two zeros; of a batch with
one key twice the later record stays, and putting under `null` touches no key. -/
example :
    let a : Record := ⟨0, "Book"⟩
    let b : Record := ⟨1, "Note"⟩
    let one : Value := .float ⟨0x3FF0000000000000⟩
    let zero : Value := .float ⟨0⟩
    let start := Store.hydrate (.ofEntries [(one, a)]) {}
    let m := Write.mapAfter start [.put (.integer 1) a, .putAll [(zero, a), (zero, b)],
      .put .null a, .removeAll [one, one, .text "none"]]
    m (.integer 1) = some a ∧ m one = none ∧ m zero = some b ∧
      m (.float .negativeZero) = none ∧ m .null = none := by
  decide

end EntityStore
