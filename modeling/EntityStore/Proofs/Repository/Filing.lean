import EntityStore.Proofs.Query.Sets
import EntityStore.Proofs.Repository.DeleteAll

/-!
# Entries stay filed

The clients of a catalog file instances of its types, remove what they like and call the methods of
repositories, in any order; some operations fail.  Between two operations instances may change, but
none that is stored changes its identifier.  Then every entry of the store is under the identifier
of its record.

    Operation catalog op → catalog.KeepsFiled op                          (Operation.keepsFiled)
    Reachable w → w.catalog.Files w.store.contents                             (Reachable.files)
-/

namespace EntityStore

/-! ## Runs -/

/-- The typed methods of a manager that may change the store.  What is saved are instances of its
type. -/
inductive Manager.Operation (m : Manager) : {α : Type} → StoreM α → Prop
  | save {record : Record} (h : m.schema.isInstance record = true) : Operation m (m.save record)
  | saveAll {records : List Record} (h : ∀ record ∈ records, m.schema.isInstance record = true) :
    Operation m (m.saveAll records)
  | deleteById (id : Value) : Operation m (m.deleteById id)
  | delete (record : Record) : Operation m (m.delete record)
  | deleteAllById (ids : List Value) : Operation m (m.deleteAllById ids)
  | deleteEntities (records : List Record) : Operation m (m.deleteEntities records)
  | deleteAll : Operation m m.deleteAll

/-- What the clients of a catalog may do.  A record is filed as an instance of its own type. -/
inductive Operation (catalog : Catalog) : {α : Type} → StoreM α → Prop
  | update {type : EntityType} {record : Record} (h : record.typeName = type.typeName) :
    Operation catalog (catalog.update type record)
  | updateAll {type : EntityType} {records : List Record}
    (h : ∀ record ∈ records, record.typeName = type.typeName) :
    Operation catalog (catalog.updateAll type records)
  | delete (id : Value) : Operation catalog (catalog.delete id)
  | deleteIds (ids : List Value) : Operation catalog (catalog.deleteIds ids)
  | deleteAll : Operation catalog catalog.deleteAll
  | removeAll (b : ConditionBuilder) : Operation catalog b.removeAll
  | execute (q : DerivedQuery) (args : List Argument) : Operation catalog (q.execute args)
  | managed {d : RepositoryDescriptor} {type : EntityType} {r : Repository}
    (hr : Repository.build d type catalog = .ok r) {α : Type} {op : StoreM α}
    (h : r.manager.Operation op) : Operation catalog op
  | invoke {d : RepositoryDescriptor} {type : EntityType} {r : Repository}
    (hr : Repository.build d type catalog = .ok r) (name : String) (args : List Argument) :
    Operation catalog (r.invoke name args)
  | look {α : Type} (g : Store → Except Failure α) : Operation catalog (Store.look g)
  | andThen {α β : Type} {op : StoreM α} {f : α → StoreM β} (hop : Operation catalog op)
    (hf : ∀ a, Operation catalog (f a)) : Operation catalog (op >>= f)
  | transaction {α : Type} {work : StoreM α} (h : Operation catalog work) :
    Operation catalog (Store.transaction work)

/-- A store and the types of its instances, with what they read at present. -/
structure World where
  catalog : Catalog
  store : Store

/-- What operations lead to from an empty store, if no instance changes its identifier while it is
stored. -/
inductive Reachable : World → Prop
  | start (catalog : Catalog) (settings : Settings) :
    Reachable ⟨catalog, .hydrate .empty settings⟩
  | change {w : World} (hw : Reachable w) {catalog : Catalog}
    (h : ∀ r ∈ w.store.records, catalog.identifier? r = w.catalog.identifier? r) :
    Reachable ⟨catalog, w.store⟩
  | operate {w : World} (hw : Reachable w) {α : Type} {op : StoreM α}
    (hop : Operation w.catalog op) : Reachable ⟨w.catalog, (op w.store).2⟩

/-! ## Operations that keep what is filed -/

/-- Where the entries are filed, they are so after the operation. -/
def Catalog.KeepsFiled (catalog : Catalog) {α : Type} (op : StoreM α) : Prop :=
  ∀ s : Store, catalog.Files s.contents → catalog.Files (op s).2.contents

section
variable {catalog : Catalog} {α β : Type} {op : StoreM α}

theorem ReadOnly.keepsFiled (h : ReadOnly op) : catalog.KeepsFiled op := by
  intro s hs
  rw [h s]
  exact hs

namespace Catalog

theorem keepsFiled_of_write {w : Write} (hop : ∀ s, (op s).2 = w.after s)
    (hw : ∀ e ∈ w.filed, catalog.Keyed e) : catalog.KeepsFiled op := by
  intro s hs
  rw [hop s]
  exact hs.after hw

/-- The rest of the operation may rely on what was settled. -/
theorem keepsFiled_settled_bind {outcome : Except Failure α} {f : α → StoreM β}
    (hf : ∀ a, outcome = .ok a → catalog.KeepsFiled (f a)) :
    catalog.KeepsFiled (Store.settled outcome >>= f) := by
  intro s hs
  rw [Store.settled_bind]
  cases outcome with
  | error failure => exact hs
  | ok a => exact hf a rfl s hs

namespace KeepsFiled

theorem bind (hop : catalog.KeepsFiled op) {f : α → StoreM β}
    (hf : ∀ a, catalog.KeepsFiled (f a)) : catalog.KeepsFiled (op >>= f) := by
  intro s hs
  have hthen := hop s hs
  rcases hrun : op s with ⟨outcome, s'⟩
  rw [hrun] at hthen
  cases outcome with
  | error failure =>
    rw [Store.bind_error hrun]
    exact hthen
  | ok a =>
    rw [Store.bind_ok hrun]
    exact hf a s' hthen

theorem bind_pure (hop : catalog.KeepsFiled op) (f : α → β) :
    catalog.KeepsFiled (op >>= fun a => pure (f a)) := by
  intro s hs
  rw [Store.bind_pure_snd]
  exact hop s hs

/-- A transaction keeps what its work did, even where it fails. -/
theorem transaction (hop : catalog.KeepsFiled op) :
    catalog.KeepsFiled (Store.transaction op) := by
  intro s hs
  have hthen := hop s hs
  unfold Store.transaction
  rcases hrun : op s with ⟨outcome, s'⟩
  rw [hrun] at hthen
  cases outcome with
  | error failure => exact hthen
  | ok a =>
    dsimp only
    split
    · exact hthen
    · exact hthen

end KeepsFiled

/-! ## Typed access -/

theorem keepsFiled_update {type : EntityType} {record : Record}
    (h : record.typeName = type.typeName) : catalog.KeepsFiled (catalog.update type record) :=
  keepsFiled_of_write (fun _ => rfl) (keyed_of_update h)

theorem keepsFiled_updateAll {type : EntityType} {records : List Record}
    (h : ∀ record ∈ records, record.typeName = type.typeName) :
    catalog.KeepsFiled (catalog.updateAll type records) :=
  keepsFiled_of_write (fun _ => rfl) (keyed_of_updateAll h)

/-- What only removes files nothing. -/
theorem keepsFiled_delete (id : Value) : catalog.KeepsFiled (catalog.delete id) := by
  refine KeepsFiled.bind_pure (keepsFiled_of_write (w := .remove id) (fun _ => rfl) ?_) _
  exact List.forall_mem_nil _

theorem keepsFiled_deleteIds (ids : List Value) : catalog.KeepsFiled (catalog.deleteIds ids) :=
  keepsFiled_of_write (w := .removeAll ids) (fun _ => rfl) (List.forall_mem_nil _)

theorem keepsFiled_deleteAll : catalog.KeepsFiled catalog.deleteAll :=
  keepsFiled_of_write (w := .clear) (fun _ => rfl) (List.forall_mem_nil _)

theorem keepsFiled_removeWhere (f : Filter) : catalog.KeepsFiled (Store.removeWhere f) :=
  keepsFiled_of_write (w := .removeWhere f) (fun _ => rfl) (List.forall_mem_nil _)

end Catalog

end

variable {catalog : Catalog}

theorem ConditionBuilder.keepsFiled_removeAll (b : ConditionBuilder) :
    catalog.KeepsFiled b.removeAll :=
  Catalog.keepsFiled_settled_bind fun f _ => Catalog.keepsFiled_removeWhere f

theorem DerivedQuery.keepsFiled_execute (q : DerivedQuery) (args : List Argument) :
    catalog.KeepsFiled (q.execute args) := by
  unfold execute
  refine Catalog.keepsFiled_settled_bind fun f _ => ?_
  split
  · exact (Catalog.keepsFiled_removeWhere f).bind_pure _
  · exact (readOnly_look _).keepsFiled

/-! ## Repositories -/

namespace Manager

variable {m : Manager}

theorem isInstance_of_entityArgument {name : String} {args : List Argument} {record : Record}
    (h : m.entityArgument name args = .ok record) : m.schema.isInstance record = true := by
  unfold entityArgument at h
  split at h
  · obtain ⟨hinst, rfl⟩ := typed_eq_ok_iff.1 h
    exact hinst
  · cases h

theorem isInstance_of_entitiesArgument {name : String} {args : List Argument}
    {records : List Record} (h : m.entitiesArgument name args = .ok records) :
    ∀ record ∈ records, m.schema.isInstance record = true := by
  unfold entitiesArgument at h
  split at h
  · intro record hrecord
    obtain ⟨_, -, htyped⟩ := exists_of_mem_mapM h hrecord
    obtain ⟨hinst, rfl⟩ := typed_eq_ok_iff.1 htyped
    exact hinst
  · cases h

theorem keepsFiled_deleteById (id : Value) : m.catalog.KeepsFiled (m.deleteById id) :=
  Catalog.keepsFiled_settled_bind fun id _ => Catalog.keepsFiled_delete id

theorem keepsFiled_delete (record : Record) : m.catalog.KeepsFiled (m.delete record) :=
  Catalog.keepsFiled_settled_bind fun key _ => Catalog.keepsFiled_delete key

theorem keepsFiled_deleteAllById (ids : List Value) :
    m.catalog.KeepsFiled (m.deleteAllById ids) :=
  Catalog.keepsFiled_settled_bind fun ids _ => Catalog.keepsFiled_deleteIds ids

theorem keepsFiled_deleteEntities (records : List Record) :
    m.catalog.KeepsFiled (m.deleteEntities records) :=
  Catalog.keepsFiled_settled_bind fun ids _ => Catalog.keepsFiled_deleteIds ids

theorem keepsFiled_findPage (request : PageRequest) :
    m.catalog.KeepsFiled (m.findPage request) := by
  refine Catalog.keepsFiled_settled_bind fun query _ => ?_
  refine (DerivedQuery.keepsFiled_execute query _).bind fun result => ?_
  exact (readOnly_settled _).keepsFiled

section
variable (hm : m.catalog.schema m.type = .ok m.schema)
include hm

theorem keepsFiled_save {record : Record} (h : m.schema.isInstance record = true) :
    m.catalog.KeepsFiled (m.save record) :=
  Catalog.keepsFiled_update ((Catalog.isInstance_iff hm).1 h)

theorem keepsFiled_saveAll {records : List Record}
    (h : ∀ record ∈ records, m.schema.isInstance record = true) :
    m.catalog.KeepsFiled (m.saveAll records) :=
  Catalog.keepsFiled_updateAll fun record hrecord =>
    (Catalog.isInstance_iff hm).1 (h record hrecord)

theorem Operation.keepsFiled {α : Type} {op : StoreM α} (h : m.Operation op) :
    m.catalog.KeepsFiled op := by
  cases h with
  | save h => exact keepsFiled_save hm h
  | saveAll h => exact keepsFiled_saveAll hm h
  | deleteById id => exact keepsFiled_deleteById id
  | delete record => exact keepsFiled_delete record
  | deleteAllById ids => exact keepsFiled_deleteAllById ids
  | deleteEntities records => exact keepsFiled_deleteEntities records
  | deleteAll => exact Catalog.keepsFiled_deleteAll

/-- A call by name files only arguments that are instances of the type. -/
theorem keepsFiled_callBase (method : BaseMethod) (args : List Argument) :
    m.catalog.KeepsFiled (m.callBase method args) := by
  cases method with
  | save =>
    refine Catalog.keepsFiled_settled_bind fun record hrecord => ?_
    exact (keepsFiled_save hm (isInstance_of_entityArgument hrecord)).bind_pure _
  | saveAll =>
    refine Catalog.keepsFiled_settled_bind fun records hrecords => ?_
    exact (keepsFiled_saveAll hm (isInstance_of_entitiesArgument hrecords)).bind_pure _
  | findById | existsById =>
    refine Catalog.keepsFiled_settled_bind fun id _ => ?_
    exact (readOnly_look _).keepsFiled.bind_pure _
  | findAllById | count => exact (readOnly_look _).keepsFiled.bind_pure _
  | findAll =>
    unfold callBase
    dsimp only
    split
    · next request _ => exact (keepsFiled_findPage request).bind_pure _
    · exact (readOnly_look _).keepsFiled.bind_pure _
  | deleteById =>
    refine Catalog.keepsFiled_settled_bind fun id _ => ?_
    exact (keepsFiled_deleteById id).bind_pure _
  | delete =>
    refine Catalog.keepsFiled_settled_bind fun record _ => ?_
    exact (keepsFiled_delete record).bind_pure _
  | deleteAll =>
    unfold callBase
    dsimp only
    split
    · refine Catalog.keepsFiled_settled_bind fun records _ => ?_
      exact (keepsFiled_deleteEntities records).bind_pure _
    · exact Catalog.keepsFiled_deleteAll.bind_pure _
  | deleteAllById => exact (keepsFiled_deleteAllById _).bind_pure _

end

end Manager

namespace Repository

variable {d : RepositoryDescriptor} {type : EntityType} {r : Repository}

/-- A repository manages a type of its catalog. -/
theorem manager_of_build (hr : build d type catalog = .ok r) :
    r.manager.catalog = catalog ∧
      r.manager.catalog.schema r.manager.type = .ok r.manager.schema := by
  obtain ⟨-, schema, hschema, rfl⟩ := build_eq_ok_iff.1 hr
  exact ⟨rfl, hschema⟩

theorem keepsFiled_invoke (hr : build d type catalog = .ok r) (name : String)
    (args : List Argument) : catalog.KeepsFiled (r.invoke name args) := by
  obtain ⟨rfl, hschema⟩ := manager_of_build hr
  unfold invoke
  split
  · exact (readOnly_settled _).keepsFiled
  · next method _ =>
    unfold Manager.call
    split
    · next base _ => exact Manager.keepsFiled_callBase hschema base args
    · exact (readOnly_settled _).keepsFiled
  · exact (readOnly_settled _).keepsFiled
  · exact (readOnly_settled _).keepsFiled
  · next query _ => exact DerivedQuery.keepsFiled_execute query args

end Repository

/-! ## Steps and runs -/

theorem Operation.keepsFiled {α : Type} {op : StoreM α} (h : Operation catalog op) :
    catalog.KeepsFiled op := by
  induction h with
  | update h => exact Catalog.keepsFiled_update h
  | updateAll h => exact Catalog.keepsFiled_updateAll h
  | delete id => exact Catalog.keepsFiled_delete id
  | deleteIds ids => exact Catalog.keepsFiled_deleteIds ids
  | deleteAll => exact Catalog.keepsFiled_deleteAll
  | removeAll b => exact b.keepsFiled_removeAll
  | execute q args => exact q.keepsFiled_execute args
  | managed hr h =>
    obtain ⟨rfl, hschema⟩ := Repository.manager_of_build hr
    exact h.keepsFiled hschema
  | invoke hr name args => exact Repository.keepsFiled_invoke hr name args
  | look g => exact (readOnly_look g).keepsFiled
  | andThen _ _ hop hf => exact hop.bind hf
  | transaction _ hwork => exact hwork.transaction

theorem Reachable.files {w : World} (hw : Reachable w) : w.catalog.Files w.store.contents := by
  induction hw with
  | start catalog settings => exact List.forall_mem_nil _
  | change _ h hfiles =>
    intro e he
    obtain ⟨hnull, hkey⟩ := hfiles e he
    refine ⟨hnull, ?_⟩
    rw [h e.2 (List.mem_map_of_mem he)]
    exact hkey
  | operate _ hop hfiles => exact hop.keepsFiled _ hfiles

/-! ## Top theorem -/

/-- **Entries stay filed under their identifiers.**  Whatever the clients of a catalog do to an
empty store, every entry is under the identifier that the type of its record reads off it, which is
not `null`.  So what is found under an identifier is the stored instance with that identifier, and
the records that a query by a method name finds have different identifiers: a set of them loses
none, and is what the method answers with where it is compiled for a set and not for a list. -/
theorem entries_stay_filed {w : World} (hw : Reachable w) :
    (∀ k r, w.store.contents.get? k = some r → k ≠ .null ∧ w.catalog.identifier? r = some k) ∧
    ∀ type schema, w.catalog.schema type = .ok schema →
      (∀ k r, w.catalog.find type k w.store = .ok (some r) ↔
        r ∈ w.store.records ∧ schema.isInstance r = true ∧ schema.identifier.read r = k) ∧
      ∀ method shape q args result records s',
        DerivedQuery.compile method shape schema = .ok q →
        q.execute args w.store = (.ok result, s') → result.toList = .ok records →
          (∀ request, ∃ members, QueryResult.adapt schema .set records request = .set members ∧
            members.size = records.length) ∧
          (shape = .list → ∃ members,
            DerivedQuery.Answers method schema args w.store .set (.set members) ∧
            members.size = records.length ∧
            ∀ r ∈ records, members.get? (schema.identifier.read r) = some r) := by
  have hfiles := hw.files
  refine ⟨fun k r hk => hfiles.of_get? hk, fun type schema hschema => ⟨fun k r => ?_, ?_⟩⟩
  · rw [Catalog.find_eq_ok_some_iff hschema, and_comm, and_left_comm]
    exact and_congr_right fun hinst => hfiles.get?_eq_some_iff hschema hinst
  · intro method shape q args result records s' hq hrun hlist
    have hdistinct : schema.Distinct w.store.records := hfiles.distinct_records hschema
    refine ⟨fun request => ?_, ?_⟩
    · obtain ⟨members, hset, hmembers⟩ :=
        QueryResult.adapt_set (DerivedQuery.nodup_toList hq hdistinct hrun hlist) request
      exact ⟨members, hset, Container.size_of_entriesOf hmembers⟩
    · rintro rfl
      obtain ⟨members, hanswers, hmembers⟩ := DerivedQuery.answers_set hq hdistinct hrun hlist
      exact ⟨members, hanswers, Container.size_of_entriesOf hmembers,
        fun r hr => Container.get?_of_entriesOf hmembers hr⟩

/-- A note gives way to a book of the same identifier, a removal fails, and both books get another
title than they were stored with; then they are found by it. -/
theorem entries_stay_filed_retitled :
    let number : Attribute := ⟨"number", .identifier, fun r => .integer (.ofNat (r.id % 3))⟩
    let title (text : String) : Attribute := ⟨"title", .column, fun _ => .text text⟩
    let book (text : String) : EntityType := ⟨"Book", "Book", [number, title text]⟩
    let note : EntityType := ⟨"Note", "Note", [number]⟩
    let books (text : String) : Schema := ⟨"Book", "Book", (book text).accessor number,
      [(book text).accessor (title text)]⟩
    let catalog (text : String) : Catalog :=
      ⟨[books text, ⟨"Note", "Note", note.accessor number, []⟩]⟩
    let filed := ((catalog "Dune").update note ⟨4, "Note"⟩ (.hydrate .empty {})).2
    let replaced := ((catalog "Dune").updateAll (book "Dune") [⟨1, "Book"⟩, ⟨2, "Book"⟩] filed).2
    let refused := ((catalog "Dune").delete .null replaced).2
    let w : World := ⟨catalog "Emma", refused⟩
    Reachable w ∧ w.catalog.identifier? ⟨1, "Book"⟩ = some (.integer 1) ∧
      w.catalog.find (book "Emma") (.integer 1) w.store = .ok (some ⟨1, "Book"⟩) ∧
      ∃ members, DerivedQuery.Answers "findByTitle" (books "Emma") [.value (.text "Emma")] w.store
        .set (.set members) ∧ members.size = 2 := by
  intro number title book note books catalog filed replaced refused w
  have hfiled : Reachable ⟨catalog "Dune", filed⟩ := (Reachable.start _ _).operate (.update rfl)
  have hreplaced : Reachable ⟨catalog "Dune", replaced⟩ :=
    hfiled.operate (.updateAll (by decide))
  have hrefused : Reachable ⟨catalog "Dune", refused⟩ := hreplaced.operate (.delete .null)
  have hw : Reachable w := hrefused.change (by decide)
  have hbooks : w.catalog.schema (book "Emma") = .ok (books "Emma") := rfl
  have hq : DerivedQuery.compile "findByTitle" .list (books "Emma") =
      .ok ⟨"findByTitle", .derivedFind, .list, some (.comparison "title" .eq .parameter), [],
        books "Emma"⟩ := rfl
  have hrun : DerivedQuery.execute ⟨"findByTitle", .derivedFind, .list,
      some (.comparison "title" .eq .parameter), [], books "Emma"⟩ [.value (.text "Emma")] w.store =
        (.ok (.list [⟨1, "Book"⟩, ⟨2, "Book"⟩]), w.store) := rfl
  obtain ⟨hkeyed, hreads⟩ := entries_stay_filed hw
  obtain ⟨hfind, hsets⟩ := hreads _ _ hbooks
  obtain ⟨members, hanswers, hsize, -⟩ := (hsets _ _ _ _ _ _ _ hq hrun rfl).2 rfl
  refine ⟨hw, (hkeyed _ _ rfl).2, (hfind _ _).2 ⟨?_, rfl, rfl⟩, members, hanswers, hsize⟩
  decide

end EntityStore
