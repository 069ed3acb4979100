import EntityStore.Proofs.Repository.Table

/-!
# Identifiers in calls by name

A call by name takes the values among its arguments for identifiers, and a list for the identifiers
in it.  So it finds and removes what the typed method finds and removes for the items of all lists;
for identifiers none of which is a list it does exactly what the typed method does, but a record
that is filed under a list cannot be reached.

    r.ActsOn ids (ids.flatMap items) s                                        (acts_on_items)
    (∀ id ∈ ids, id.kind ≠ .list) → r.ActsOn ids ids s
-/

namespace EntityStore

namespace Argument

theorem values_map_value (vs : List Value) : values (vs.map .value) = vs := by
  rw [values, List.filterMap_map]
  exact List.filterMap_some

/-- Values that are no lists stand for themselves. -/
theorem flatMap_items_eq {vs : List Value} (h : ∀ v ∈ vs, v.kind ≠ .list) :
    (vs.flatMap fun v => v.asList?.getD [v]) = vs := by
  calc
    (vs.flatMap fun v => v.asList?.getD [v]) = vs.flatMap fun v => [v] := by
      refine List.flatMap_congr fun v hv => ?_
      cases v with
      | list items => exact absurd rfl (h _ hv)
      | _ => rfl
    _ = vs := List.flatMap_singleton' vs

end Argument

namespace Repository

/-- The calls by name with some values do what the typed methods do with some identifiers: they find
the same records or fail alike, and leave the same entries and commits. -/
def ActsOn (r : Repository) (given ids : List Value) (s : Store) : Prop :=
  r.invoke "findAllById" (given.map .value) s = ((r.manager.findAllById s ids).map .list, s) ∧
  r.invoke "deleteAllById" (given.map .value) s =
    ((r.manager.deleteAllById ids s).1.map fun _ => .unit, (r.manager.deleteAllById ids s).2)

variable {d : RepositoryDescriptor} {type : EntityType} {catalog : Catalog} {r : Repository}

/-- **Calls by name act on the items of lists.**  In a repository that keeps both methods to the
base vocabulary, a call of either with one value for each identifier does to every store what the
typed method does with the identifiers, where a list stands for its items; so where none of the
identifiers is a list, the two do the same. -/
theorem acts_on_items (hr : build d type catalog = .ok r) (hfind : d.Keeps .findAllById)
    (hdelete : d.Keeps .deleteAllById) (ids : List Value) (s : Store) :
    r.ActsOn ids (ids.flatMap fun id => id.asList?.getD [id]) s ∧
      ((∀ id ∈ ids, id.kind ≠ .list) → r.ActsOn ids ids s) := by
  have hitems : r.ActsOn ids (ids.flatMap fun id => id.asList?.getD [id]) s := by
    have hflat : Argument.flatValues (ids.map .value) =
        ids.flatMap fun id => id.asList?.getD [id] := by
      rw [Argument.flatValues, Argument.values_map_value]
    rw [← hflat]
    constructor
    · exact (congrFun (invoke_of_keeps hr hfind _) s).trans (Store.bind_pure_apply _ _ s)
    · exact (congrFun (invoke_of_keeps hr hdelete _) s).trans (Store.bind_pure_apply _ _ s)
  refine ⟨hitems, fun h => ?_⟩
  rwa [Argument.flatMap_items_eq h] at hitems

/-- Two books by three identifiers, the last two in a list, the last of them unknown. -/
theorem acts_on_items_two_books :
    let isbn : Attribute := ⟨"isbn", .identifier, fun r => .integer (.ofNat r.id)⟩
    let book : EntityType := ⟨"Book", "Book", [isbn]⟩
    let catalog : Catalog := ⟨[⟨"Book", "Book", book.accessor isbn, []⟩]⟩
    let s := Store.hydrate (.ofEntries [(.integer 2, ⟨2, "Book"⟩), (.text "draft", ⟨3, "Note"⟩),
      (.integer 1, ⟨1, "Book"⟩)]) {}
    let args : List Argument := [.integer 1, .list [.integer 2, .integer 9]].map .value
    ∃ r, build ⟨"Books", book, [⟨"findAllById", .list, true⟩]⟩ book catalog = .ok r ∧
      r.invoke "findAllById" args s = (.ok (.list [⟨1, "Book"⟩, ⟨2, "Book"⟩]), s) ∧
      (r.invoke "deleteAllById" args s).2.contents.keys = [.text "draft"] := by
  intro isbn book catalog s args
  have hr : build ⟨"Books", book, [⟨"findAllById", .list, true⟩]⟩ book catalog = .ok _ := rfl
  obtain ⟨⟨hfind, hdelete⟩, -⟩ := acts_on_items hr (by decide) (by decide)
    [.integer 1, .list [.integer 2, .integer 9]] s
  refine ⟨_, hr, hfind.trans rfl, ?_⟩
  rw [hdelete]
  decide

/-- A book that is filed under a list is found by its identifier, but not by name. -/
theorem list_identifier_not_found_by_name :
    let isbn : Attribute := ⟨"isbn", .identifier, fun _ => .list [.integer 1, .integer 2]⟩
    let book : EntityType := ⟨"Book", "Book", [isbn]⟩
    let catalog : Catalog := ⟨[⟨"Book", "Book", book.accessor isbn, []⟩]⟩
    let s := Store.hydrate (.ofEntries [(.list [.integer 1, .integer 2], ⟨1, "Book"⟩)]) {}
    let ids : List Value := [.list [.integer 1, .integer 2]]
    ¬ ∀ r, build ⟨"Books", book, []⟩ book catalog = .ok r → r.ActsOn ids ids s := by
  intro isbn book catalog s ids hclaim
  obtain ⟨hfind, -⟩ := hclaim _ rfl
  cases hfind

end Repository

end EntityStore
