import EntityStore.Proofs.Query.Reductions
import EntityStore.Proofs.Storage.Removal

/-!
# What the standard size of a page is for

A call that neither asks for a page nor answers with one reads nothing of a store but its entries,
with one exception: a find makes up a page of the standard size, which it does not show, and so
fails where the size is zero.  Sizes other than zero it does not tell apart, and neither does a
count, a test or a removal any two sizes.

    (q.execute args s).1 =
      if s.settings.defaultPageSize = 0 then q.handOver args s >>= fun _ => .error .zeroPageSize
      else q.handOver args s                                                     (execute_unpaged)
    t.contents = s.contents → SameEffect (q.execute args) s t                 (sameEffect_execute)
-/

namespace EntityStore

/-! ## Effects -/

/-- The operation leaves the same entries in both stores and adds the same commits to them. -/
structure Store.SameEffect {α : Type} (op : StoreM α) (s t : Store) : Prop where
  contents : (op t).2.contents = (op s).2.contents
  commits : ∃ added, (op s).2.commits = s.commits ++ added ∧ (op t).2.commits = t.commits ++ added

namespace Store

variable {α : Type} {s t : Store}

theorem sameEffect_of_unchanged {op : StoreM α} (h : t.contents = s.contents)
    (hs : (op s).2 = s) (ht : (op t).2 = t) : SameEffect op s t := by
  refine ⟨?_, [], ?_, ?_⟩
  · rw [hs, ht, h]
  · rw [hs, List.append_nil]
  · rw [ht, List.append_nil]

theorem removeWhere_congr (f : Filter) (h : t.contents = s.contents) :
    (removeWhere f t).1 = (removeWhere f s).1 := by
  unfold removeWhere
  rw [h]
  cases matchingKeys f s.contents.entries with
  | error failure => rfl
  | ok keys =>
    show Except.ok (countPresent t.contents keys) = Except.ok (countPresent s.contents keys)
    rw [h]

theorem sameEffect_removeWhere (f : Filter) (h : t.contents = s.contents) :
    SameEffect (removeWhere f) s t := by
  have houtcome := removeWhere_congr f h
  rcases hs : removeWhere f s with ⟨outcome, s'⟩
  rcases ht : removeWhere f t with ⟨outcome', t'⟩
  obtain rfl : outcome' = outcome := by rwa [hs, ht] at houtcome
  cases outcome' with
  | error failure =>
    apply sameEffect_of_unchanged h
    · rw [hs, (removeWhere_eq_error_iff.1 hs).2]
    · rw [ht, (removeWhere_eq_error_iff.1 ht).2]
  | ok n =>
    obtain ⟨-, -, rfl⟩ := removeWhere_eq_ok_iff.1 hs
    obtain ⟨-, -, rfl⟩ := removeWhere_eq_ok_iff.1 ht
    refine ⟨?_, [.container (s.contents.without f)], ?_, ?_⟩
    · rw [hs, ht]
      exact congrArg (Container.without · f) h
    · rw [hs]
      rfl
    · rw [ht, ← h]
      rfl

end Store

/-- A computation that may be refused at its end, asked twice: the answers are the same where it is
refused both times or neither, or has failed before. -/
theorem ite_refused_eq_iff {α : Type} {x refused : Except Failure α} {b c : Prop} [Decidable b]
    [Decidable c] (hrefused : refused.isOk = false) (hx : x.isOk = false → refused = x) :
    (if c then refused else x) = (if b then refused else x) ↔ (b ↔ c) ∨
      ((if b then refused else x).isOk = false ∧ (if c then refused else x).isOk = false) := by
  have hagree : refused = x ↔ x.isOk = false := by
    constructor
    · rintro rfl
      exact hrefused
    · exact hx
  by_cases hb : b <;> by_cases hc : c
  · simp only [hb, hc, true_or]
  · simp only [hb, hc, if_true, if_false, iff_false, not_true, false_or, hrefused, true_and]
    rw [eq_comm]
    exact hagree
  · simp only [hb, hc, if_true, if_false, iff_true, false_or, hrefused, and_true]
    exact hagree
  · simp only [hb, hc, true_or]

/-- Only a page shows the request that it answers. -/
theorem QueryResult.adapt_congr {schema : Schema} {shape : ResultShape} (hshape : shape ≠ .page)
    (records : List Record) (r r' : PageRequest) :
    adapt schema shape records r = adapt schema shape records r' := by
  cases shape with
  | page => exact absurd rfl hshape
  | _ => rfl

namespace DerivedQuery

variable {q : DerivedQuery} {args : List Argument} {s t : Store}

/-- What compiles finds, reduces what it finds, or removes it. -/
theorem kind_of_compile {method : String} {shape : ResultShape} {schema : Schema}
    (h : compile method shape schema = .ok q) :
    q.kind.finds = true ∨
      q.kind.finds = false ∧ (q.kind.reduces = true ∨ q.kind = .derivedDelete) := by
  by_cases hall : q.kind = .findAll
  · rw [hall]
    exact .inl rfl
  · obtain ⟨parsed, hparsed, rfl⟩ := exists_parsed_of_compile h hall
    obtain ⟨lead, _, _, _, hlead, -⟩ := MethodQuery.parse_eq_ok_iff.1 hparsed
    simp only [MethodKind.leads, List.mem_cons, Prod.mk.injEq, List.not_mem_nil, or_false] at hlead
    dsimp only
    rcases hlead with ⟨-, hkind⟩ | ⟨-, hkind⟩ | ⟨-, hkind⟩ | ⟨-, hkind⟩
    · exact .inl (by rw [hkind]; rfl)
    · exact .inr ⟨by rw [hkind]; rfl, .inr hkind⟩
    · exact .inr ⟨by rw [hkind]; rfl, .inl (by rw [hkind]; rfl)⟩
    · exact .inr ⟨by rw [hkind]; rfl, .inl (by rw [hkind]; rfl)⟩

/-! ## Calls without a page -/

/-- What a find hands over.  The page of the answer is any, for a shape that does not show it. -/
def handOver (q : DerivedQuery) (args : List Argument) (s : Store) :
    Except Failure QueryResult := do
  let f ← q.filter args
  let found ← q.find f args s
  pure (.adapt q.schema q.shape (q.schema.instances found.1) ⟨1, 1, [], by decide, by decide⟩)

section Unpaged

variable (hshape : q.shape ≠ .page)
include hshape

/-- No setting has a part in what is found. -/
theorem find_congr (h : t.contents = s.contents) (f : Filter) :
    q.find f args t = q.find f args s := by
  rw [find_eq, find_eq, requestedPage_eq (.inl hshape), requestedPage_eq (.inl hshape)]
  simp only [Store.select, Store.records, h]

theorem handOver_congr (h : t.contents = s.contents) : q.handOver args t = q.handOver args s := by
  simp only [handOver, find_congr hshape h]

/-- A find without a page still makes one up. -/
theorem execute_unpaged (hnone : Argument.firstPage? args = none) (hk : q.kind.finds = true)
    (s : Store) :
    (q.execute args s).1 =
      if s.settings.defaultPageSize = 0 then q.handOver args s >>= fun _ => .error .zeroPageSize
      else q.handOver args s := by
  rw [execute_eq (MethodKind.ne_delete_of_finds hk), handOver]
  cases q.filter args with
  | error failure => exact (ite_self _).symm
  | ok f =>
    show q.answer args f s = if _ then (q.find f args s >>= _) >>= _ else q.find f args s >>= _
    rw [answer_eq hk]
    cases hfind : q.find f args s with
    | error failure => exact (ite_self _).symm
    | ok found =>
      obtain ⟨records, request⟩ := found
      obtain ⟨hrequest, -⟩ := find_eq_ok_iff.1 hfind
      rw [requestedPage_eq (.inl hshape), hnone] at hrequest
      cases hrequest
      show (PageRequest.ofSize s.settings.defaultPageSize >>= _) = _
      rw [PageRequest.ofSize, PageRequest.make]
      split
      · rfl
      · exact congrArg Except.ok (QueryResult.adapt_congr hshape _ _ _)

/-- Neither a reduction nor a removal makes up a page. -/
theorem execute_congr (hk : q.kind.reduces = true ∨ q.kind = .derivedDelete)
    (h : t.contents = s.contents) : (q.execute args t).1 = (q.execute args s).1 := by
  rcases hk with hk | hk
  · have hkind := MethodKind.ne_delete_of_reduces hk
    rw [execute_eq hkind, execute_eq hkind]
    simp only [answer_reduction hk, find_congr hshape h]
  · cases hf : q.filter args with
    | error failure => rw [execute_of_error hf, execute_of_error hf]
    | ok f => rw [execute_removal hk hf, execute_removal hk hf, Store.removeWhere_congr f h]

end Unpaged

/-- Whatever a call does to a store is told by the entries. -/
theorem sameEffect_execute (h : t.contents = s.contents) :
    Store.SameEffect (q.execute args) s t := by
  by_cases hk : q.kind = .derivedDelete
  · cases hf : q.filter args with
    | error failure =>
      apply Store.sameEffect_of_unchanged h
      · rw [execute_of_error hf]
      · rw [execute_of_error hf]
    | ok f =>
      obtain ⟨hcontents, hcommits⟩ := Store.sameEffect_removeWhere f h
      constructor
      · rw [execute_removal hk hf, execute_removal hk hf]
        exact hcontents
      · rw [execute_removal hk hf, execute_removal hk hf]
        exact hcommits
  · have hreads : ∀ u, (q.execute args u).2 = u := by
      intro u
      rw [execute_eq hk]
    exact Store.sameEffect_of_unchanged h (hreads s) (hreads t)

/-! ## Top theorem -/

/-- **The standard size is for pages.**  Two stores with the same entries, whatever their settings,
answer alike a call that neither asks for a page nor answers with one, unless it is a find that
succeeds on one of them and the standard size is zero in one store only.  The call leaves the same
entries in both stores and adds the same commits. -/
theorem answers_alike_iff {method : String} {shape : ResultShape} {schema : Schema}
    (hq : compile method shape schema = .ok q) (hshape : q.shape ≠ .page)
    (hnone : Argument.firstPage? args = none) (h : t.contents = s.contents) :
    ((q.execute args t).1 = (q.execute args s).1 ↔
      (q.kind.finds = true →
        (s.settings.defaultPageSize = 0 ↔ t.settings.defaultPageSize = 0) ∨
        ((q.execute args s).1.isOk = false ∧ (q.execute args t).1.isOk = false))) ∧
    Store.SameEffect (q.execute args) s t := by
  refine ⟨?_, sameEffect_execute h⟩
  rcases kind_of_compile hq with hk | ⟨hnot, hk⟩
  · rw [execute_unpaged hshape hnone hk, execute_unpaged hshape hnone hk, handOver_congr hshape h,
      forall_prop_of_true hk]
    apply ite_refused_eq_iff
    · cases q.handOver args s <;> rfl
    · intro hfails
      cases hout : q.handOver args s with
      | error failure => rfl
      | ok result => rw [hout] at hfails; cases hfails
  · refine iff_of_true (execute_congr hshape hk h) fun hfinds => ?_
    rw [hnot] at hfinds
    cases hfinds

/-- A find notices that the standard size is zero, and a removal does not. -/
theorem answers_alike_iff_size_zero :
    let read (name : String) (read : Record → Value) : Accessor := ⟨name, "Book", "Book", read⟩
    let schema : Schema := ⟨"Book", "Book", read "isbn" fun r => .integer (.ofNat r.id),
      [read "edition" fun r => .integer (.ofNat (r.id % 2))]⟩
    let entries := Container.ofEntries [(.integer 4, ⟨4, "Book"⟩), (.integer 1, ⟨1, "Book"⟩),
      (.text "draft", ⟨3, "Note"⟩)]
    let s := Store.hydrate entries {}
    let t := Store.hydrate entries { defaultPageSize := 0 }
    let args : List Argument := [.value (.integer 1)]
    ∃ find remove, compile "findByEdition" .set schema = .ok find ∧
      compile "deleteByEdition" .count schema = .ok remove ∧
      (find.execute args t).1 ≠ (find.execute args s).1 ∧
      (remove.execute args t).1 = (remove.execute args s).1 ∧
      Store.SameEffect (remove.execute args) s t := by
  intro read schema entries s t args
  let condition := Condition.comparison "edition" .eq .parameter
  have hfind : compile "findByEdition" .set schema =
      .ok ⟨"findByEdition", .derivedFind, .set, some condition, [], schema⟩ := rfl
  have hremove : compile "deleteByEdition" .count schema =
      .ok ⟨"deleteByEdition", .derivedDelete, .count, some condition, [], schema⟩ := rfl
  have hsame : t.contents = s.contents := rfl
  have hnone : Argument.firstPage? args = none := rfl
  obtain ⟨hfinds, -⟩ := answers_alike_iff hfind ResultShape.noConfusion hnone hsame
  obtain ⟨hremoves, heffect⟩ := answers_alike_iff hremove ResultShape.noConfusion hnone hsame
  refine ⟨_, _, hfind, hremove, fun h => ?_, hremoves.2 (fun h => by cases h), heffect⟩
  rcases hfinds.1 h rfl with h | ⟨h, -⟩
  · exact absurd (h.2 rfl) (by decide)
  · cases h

/-- A find of a list fails where the standard size is zero. -/
theorem list_refused_for_size_zero :
    let read (name : String) (read : Record → Value) : Accessor := ⟨name, "Book", "Book", read⟩
    let schema : Schema := ⟨"Book", "Book", read "isbn" fun r => .integer (.ofNat r.id),
      [read "title" fun _ => .text "Dune"]⟩
    let entries := Container.ofEntries [(.integer 1, ⟨1, "Book"⟩)]
    let s := Store.hydrate entries { defaultPageSize := 20 }
    let t := Store.hydrate entries { defaultPageSize := 0 }
    let args : List Argument := [.value (.text "Dune")]
    ¬ ∀ q, compile "findByTitle" .list schema = .ok q →
      (q.execute args t).1 = (q.execute args s).1 := by
  intro read schema entries s t args hclaim
  have hagree := hclaim ⟨"findByTitle", .derivedFind, .list,
    some (.comparison "title" .eq .parameter), [], schema⟩ rfl
  cases hagree

end DerivedQuery

end EntityStore
