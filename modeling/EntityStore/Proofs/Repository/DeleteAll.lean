import EntityStore.Proofs.Repository.Table
import EntityStore.Proofs.Storage.Removal

/-!
# Removing everything by name

Called with a list of entities, `deleteAll` drops what is filed under their identifiers, or nothing
if it refuses one of them.  Called without a list it drops everything: an entity that is passed on
its own counts for nothing.

    Argument.firstEntities? args = none →
      m.callBase .deleteAll args s = (.ok .unit, s.replaceContents .empty)
                                                                     (callBase_deleteAll_unlisted)
    entries that no passed entity identifies stay ↔
      deleteAll is hidden, or a list is passed, or there are no such entries  (deleteAll_spares_iff)
-/

namespace EntityStore

/-! ## Entities among the arguments -/

/-- The entities that an argument passes, alone or in a list. -/
def Argument.passed : Argument → List Record
  | entity record => [record]
  | entities records => records
  | _ => []

/-- The key is the identifier of an entity of the type that the arguments pass. -/
def Schema.Identifies (schema : Schema) (args : List Argument) (key : Value) : Prop :=
  ∃ record ∈ args.flatMap Argument.passed,
    schema.isInstance record = true ∧ schema.key record = .ok key

theorem Argument.mem_passed {args : List Argument} {records : List Record} {record : Record}
    (h : firstEntities? args = some records) (hrecord : record ∈ records) :
    record ∈ args.flatMap passed := by
  obtain ⟨arg, harg, hlist⟩ := List.exists_of_findSome?_eq_some h
  refine List.mem_flatMap.2 ⟨arg, harg, ?_⟩
  cases arg with
  | entities rs =>
    cases hlist
    exact hrecord
  | _ => cases hlist

/-! ## Removing a list -/

theorem Store.get?_removeAll_of_not_mem {keys : List Value} {key : Value} (h : key ∉ keys)
    (s : Store) : (removeAll keys s).2.contents.get? key = s.contents.get? key := by
  unfold removeAll
  split
  · rfl
  · show (s.contents.eraseAll keys).get? key = _
    rw [Container.get?_eraseAll, if_neg h]

namespace Manager

variable {m : Manager}

theorem typed_eq_ok_iff {record record' : Record} :
    m.typed record = .ok record' ↔ m.schema.isInstance record = true ∧ record' = record := by
  unfold typed Schema.instance?
  cases m.schema.isInstance record with
  | true =>
    constructor
    · intro h
      cases h
      exact ⟨rfl, rfl⟩
    · rintro ⟨-, rfl⟩
      rfl
  | false =>
    constructor
    · intro h
      cases h
    · rintro ⟨h, -⟩
      cases h

/-- What is removed with a list is filed under an identifier of an entity in it. -/
theorem get?_deleteAll_listed {args : List Argument} {records : List Record}
    (hlist : Argument.firstEntities? args = some records) {key : Value}
    (hkey : ¬ m.schema.Identifies args key) (s : Store) :
    (m.callBase .deleteAll args s).2.contents.get? key = s.contents.get? key := by
  rw [callBase, hlist, Option.isSome_some, if_pos rfl, Store.settled_bind, entitiesArgument, hlist]
  dsimp only
  cases htyped : records.mapM m.typed with
  | error failure => rfl
  | ok entities =>
    dsimp only
    rw [Store.bind_pure_snd, deleteEntities, Store.settled_bind]
    cases hids : entities.mapM m.schema.key with
    | error failure => rfl
    | ok ids =>
      refine Store.get?_removeAll_of_not_mem (fun hmem => hkey ?_) s
      obtain ⟨entity, hentity, hid⟩ := exists_of_mem_mapM hids hmem
      obtain ⟨record, hrecord, hinst⟩ := exists_of_mem_mapM htyped hentity
      obtain ⟨hinst, rfl⟩ := typed_eq_ok_iff.1 hinst
      exact ⟨entity, Argument.mem_passed hlist hrecord, hinst, hid⟩

theorem callBase_deleteAll_unlisted {args : List Argument}
    (hlist : Argument.firstEntities? args = none) (s : Store) :
    m.callBase .deleteAll args s = (.ok .unit, s.replaceContents .empty) := by
  rw [callBase, hlist]
  exact Store.bind_ok rfl

end Manager

/-! ## Top theorem -/

namespace Repository

variable {d : RepositoryDescriptor} {type : EntityType} {catalog : Catalog} {r : Repository}

/-- **Removing everything spares other entries only with a list.**  A call of `deleteAll` leaves
every entry that no passed entity identifies bound to the same instance, exactly where a list of
entities is among the arguments, or there is no such entry, or the repository hides the method and
refuses the call.  Without a list the store is cleared and the empty container committed, whatever
else is passed. -/
theorem deleteAll_spares_iff (hr : build d type catalog = .ok r) (args : List Argument)
    (s : Store) :
    ((∀ key, ¬ r.manager.schema.Identifies args key →
        (r.invoke "deleteAll" args s).2.contents.get? key = s.contents.get? key) ↔
      (d.Keeps .deleteAll → (Argument.firstEntities? args).isSome ∨
        ∀ key ∈ s.contents.keys, r.manager.schema.Identifies args key)) ∧
    (d.Keeps .deleteAll → Argument.firstEntities? args = none →
      r.invoke "deleteAll" args s = (.ok .unit, s.replaceContents .empty)) := by
  by_cases hkeeps : d.Keeps .deleteAll
  · have hinvoke : r.invoke "deleteAll" args s = r.manager.callBase .deleteAll args s :=
      congrFun (invoke_of_keeps hr hkeeps args) s
    rw [hinvoke]
    cases hlist : Argument.firstEntities? args with
    | some records =>
      refine ⟨iff_of_true (fun key hkey => ?_) fun _ => .inl rfl, nofun⟩
      exact Manager.get?_deleteAll_listed hlist hkey s
    | none =>
      rw [Manager.callBase_deleteAll_unlisted hlist]
      refine ⟨?_, fun _ _ => rfl⟩
      simp only [hkeeps, Option.isSome_none, Bool.false_eq_true, false_or, true_implies]
      refine forall_congr' fun key => ?_
      -- Nothing is left, so what stays must not have been there.
      show (_ → none = s.contents.get? key) ↔ _
      rw [Container.mem_keys_iff, ← Option.isSome_iff_exists, ← not_imp_not, @eq_comm _ none,
        ← ne_eq, Option.ne_none_iff_isSome, not_not]
  · have hrefused : r.invoke "deleteAll" args =
        Store.settled (.error (.unsupportedMethod "deleteAll")) :=
      invoke_of_unsupported hr hkeeps rfl args
    rw [hrefused]
    exact ⟨iff_of_true (fun key _ => rfl) fun h => absurd h hkeeps, fun h => absurd h hkeeps⟩

/-- Three entries: with the first book in a list the others stay, and with no list, but the first
book on its own, none does. -/
theorem deleteAll_spares_two_entries :
    let isbn : Attribute := ⟨"isbn", .identifier, fun r => .integer (.ofNat r.id)⟩
    let book : EntityType := ⟨"Book", "Book", [isbn]⟩
    let catalog : Catalog := ⟨[⟨"Book", "Book", book.accessor isbn, []⟩]⟩
    let s := Store.hydrate (.ofEntries [(.integer 2, ⟨2, "Book"⟩), (.text "draft", ⟨3, "Note"⟩),
      (.integer 1, ⟨1, "Book"⟩)]) {}
    ∃ r, build ⟨"Books", book, []⟩ book catalog = .ok r ∧
      (∀ key, key ≠ .integer 1 →
        (r.invoke "deleteAll" [.value .null, .entities [⟨1, "Book"⟩]] s).2.contents.get? key
          = s.contents.get? key) ∧
      r.invoke "deleteAll" [.entity ⟨1, "Book"⟩] s = (.ok .unit, s.replaceContents .empty) := by
  intro isbn book catalog s
  have hr : build ⟨"Books", book, []⟩ book catalog = .ok _ := rfl
  obtain ⟨hspares, -⟩ := deleteAll_spares_iff hr [.value .null, .entities [⟨1, "Book"⟩]] s
  obtain ⟨-, hclears⟩ := deleteAll_spares_iff hr [.entity ⟨1, "Book"⟩] s
  refine ⟨_, hr, fun key hkey => ?_, hclears (by decide) rfl⟩
  refine hspares.2 (fun _ => .inl rfl) key ?_
  rintro ⟨record, hrecord, -, hid⟩
  obtain rfl : record = ⟨1, "Book"⟩ := List.mem_singleton.1 hrecord
  exact hkey (Except.ok.inj hid).symm

/-- A book that is passed on its own does not spare another one. -/
theorem deleteAll_spares_nothing_unlisted :
    let isbn : Attribute := ⟨"isbn", .identifier, fun r => .integer (.ofNat r.id)⟩
    let book : EntityType := ⟨"Book", "Book", [isbn]⟩
    let catalog : Catalog := ⟨[⟨"Book", "Book", book.accessor isbn, []⟩]⟩
    let s := Store.hydrate (.ofEntries [(.integer 1, ⟨1, "Book"⟩), (.integer 2, ⟨2, "Book"⟩)]) {}
    let args : List Argument := [.entity ⟨1, "Book"⟩]
    ¬ ∀ r, build ⟨"Books", book, []⟩ book catalog = .ok r →
      ∀ key, ¬ r.manager.schema.Identifies args key →
        (r.invoke "deleteAll" args s).2.contents.get? key = s.contents.get? key := by
  intro isbn book catalog s args hclaim
  have hstays := hclaim _ rfl (.integer 2) ?_
  · revert hstays
    decide
  · rintro ⟨record, hrecord, -, hid⟩
    obtain rfl : record = ⟨1, "Book"⟩ := List.mem_singleton.1 hrecord
    cases hid

end Repository

end EntityStore
