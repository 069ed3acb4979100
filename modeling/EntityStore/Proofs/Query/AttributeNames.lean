import EntityStore.Proofs.Entity.Lookup
import EntityStore.Proofs.MethodName.Rendering
import EntityStore.Proofs.Query.Twins
import EntityStore.Proofs.Text.LetterCase
import Mathlib.Data.List.Nodup

/-!
# Attributes in method names

A method name spells an attribute in camel case.  Where no word of that is a keyword, the name
compiles to a comparison of the attribute: of the one that is called so, or else of the one whose
name has the same segments with underscores between them.

    IsField (words body) → MethodQuery.parse (lead ++ body) =
      .ok ⟨kind, .comparison (decapitalize body) .eq .parameter, []⟩                (parse_field)
    schema.field? (lowerCamel name) = none → (∀ s ∈ segments name, IsSegment s) →
      schema.resolve (lowerCamel name) = schema.resolve name            (resolve_lowerCamel)
-/

namespace EntityStore

open MethodName Text

/-- The query compares one attribute with the value that a call brings. -/
structure DerivedQuery.FindsBy (q : DerivedQuery) (a : Accessor) : Prop where
  kind : q.kind = .derivedFind
  condition : ∃ field, q.condition = some (.comparison field .eq .parameter) ∧
    q.schema.resolve field = .ok a
  filter : ∀ v, v ≠ .null →
    q.filter [.value v] = .ok fun r => .ok (q.schema.isInstance r && a.read r = v)

/-! ## Parsing -/

namespace MethodName

theorem criteria_field (method : String) {ws : List String} (h : IsField ws) :
    criteria method ws = .ok (.comparison (fieldName ws) .eq .parameter) := by
  have hclause : Clause.parse method ws = .ok ⟨ws, false, .equal⟩ := by
    have hwords : Clause.words ⟨ws, false, .equal⟩ = ws := by simp [Clause.words, Suffix.words]
    have hparse : Clause.parse method (Clause.words ⟨ws, false, .equal⟩) =
        .ok ⟨ws, false, .equal⟩ := Clause.parse_words h
    rwa [hwords] at hparse
  refine criteria_eq_ok_iff.2 ⟨ws, [], _, [], ?_, h.joinFree, List.forall_mem_nil _, hclause, rfl,
    rfl⟩
  rw [List.flatMap_nil, List.append_nil]

end MethodName

/-- A lead with a field behind it asks for the records whose field equals the parameter. -/
theorem MethodQuery.parse_field {lead : String} {kind : MethodKind}
    (hlead : (lead, kind) ∈ MethodKind.leads) {body : List Char} (h : IsField (words body)) :
    MethodQuery.parse (lead ++ String.ofList body) =
      .ok ⟨kind, .comparison (String.ofList (decapitalize body)) .eq .parameter, []⟩ := by
  have hfield : fieldName (words body) = String.ofList (decapitalize body) := by
    rw [fieldName, flatMap_toList_words]
  refine MethodQuery.parse_eq_ok_iff.2 ⟨lead, body, words body, [], hlead, ?_, ?_,
    orderFree_of_not_mem h.order_not_mem, List.forall_mem_nil _, ?_, rfl⟩
  · rw [String.toList_append, String.toList_ofList]
  · rw [List.flatMap_nil, List.append_nil]
  · rw [← hfield]
    exact criteria_field _ h

/-! ## Compiling -/

namespace DerivedQuery

theorem filter_comparison {q : DerivedQuery} {field : String} {a : Accessor} {v : Value}
    (hq : q.condition = some (.comparison field .eq .parameter))
    (hfield : q.schema.resolve field = .ok a) (hv : v ≠ .null) :
    q.filter [.value v] = .ok fun r => .ok (q.schema.isInstance r && a.read r = v) := by
  have hnull : v.isNull = false := by
    rw [← Bool.not_eq_true, Value.isNull_iff]
    exact hv
  have hcompare : Filter.compare .eq v a = .ok fun r => .ok (a.read r = v) := by
    rw [Filter.compare, hnull]
    rfl
  have hbind : (Condition.comparison field .eq .parameter).bind q.schema [v] =
      .ok (fun r => .ok (a.read r = v), []) :=
    Condition.bind_comparison hfield rfl hcompare
  have hfilter : q.filter [.value v] =
      .ok (Filter.onInstances q.schema fun r => .ok (a.read r = v)) := by
    rw [filter, hq]
    show ((Condition.comparison field .eq .parameter).bind q.schema [v]).map _ = _
    rw [hbind]
    rfl
  rw [hfilter]
  congr 1
  funext r
  rw [Filter.onInstances]
  cases q.schema.isInstance r <;> rfl

/-- A find by a field that means an attribute compiles to a comparison of that attribute. -/
theorem findsBy_of_resolve {schema : Schema} {body : List Char} {a : Accessor}
    (hbody : IsField (words body))
    (hfield : schema.resolve (String.ofList (decapitalize body)) = .ok a) (shape : ResultShape) :
    ∃ q, compile ("findBy" ++ String.ofList body) shape schema = .ok q ∧ q.FindsBy a := by
  have hlead : ("findBy", MethodKind.derivedFind) ∈ MethodKind.leads := by decide
  have hparse := MethodQuery.parse_field hlead hbody
  refine ⟨_, (compile_eq_ok_iff hparse).2 ⟨?_, ⟨[], rfl⟩, rfl⟩, rfl, ⟨_, rfl, hfield⟩,
    fun v hv => filter_comparison rfl hfield hv⟩
  exact Condition.checkFields_eq_ok_iff.2 (List.forall_mem_singleton.2 ⟨a, hfield⟩)

end DerivedQuery

/-! ## Fields -/

namespace MethodName

theorem words_ne_nil {name : List Char} (h : name ≠ []) : words name ≠ [] := by
  intro hwords
  have hname := flatMap_toList_words name
  rw [hwords] at hname
  exact h hname.symm

theorem isField_capitalize {c : Char} {cs : List Char} (hc : c.isLower = true)
    (hplain : ∀ w ∈ words (capitalize (c :: cs)), w ∉ keywords) :
    IsField (words (capitalize (c :: cs))) :=
  ⟨words_ne_nil (List.cons_ne_nil _ _), isCamelWord_of_isUpper (toUpper_of_isLower hc).1 cs, hplain⟩

theorem isCamelWord_capitalize {s : List Char} (h : IsSegment s) :
    IsCamelWord (String.ofList (capitalize s)) := by
  obtain ⟨c, cs, rfl, hc, hcs⟩ := h.exists_cons
  rw [IsCamelWord, String.toList_ofList]
  exact ⟨(toUpper_of_isLower hc).1, fun d hd => isUpper_of_isSmall (hcs d hd)⟩

/-- The words of a name in camel case are its segments. -/
theorem words_upperCamel {name : List Char} (h : ∀ s ∈ segments name, IsSegment s) :
    words (upperCamel name) = (segments name).map fun s => String.ofList (capitalize s) := by
  have hwords : ∀ w ∈ (segments name).map fun s => String.ofList (capitalize s), IsCamelWord w :=
    List.forall_mem_map.2 fun s hs => isCamelWord_capitalize (h s hs)
  have hback := words_flatMap hwords
  rw [List.flatMap_map] at hback
  simp only [String.toList_ofList] at hback
  exact hback

theorem isField_upperCamel {name : List Char}
    (h : ∀ s ∈ segments name, IsSegment s ∧ String.ofList (capitalize s) ∉ keywords) :
    IsField (words (upperCamel name)) := by
  rw [words_upperCamel fun s hs => (h s hs).1]
  refine ⟨?_, List.forall_mem_map.2 fun s hs => isCamelWord_capitalize (h s hs).1,
    List.forall_mem_map.2 fun s hs => (h s hs).2⟩
  rw [Ne, List.map_eq_nil_iff]
  exact List.splitOn_ne_nil _ _

end MethodName

/-! ## Attributes -/

namespace Schema

variable {schema : Schema}

theorem field?_of_nodup (h : (schema.accessors.map (·.name)).Nodup) {a : Accessor}
    (ha : a ∈ schema.accessors) : schema.field? a.name = some a :=
  field?_name_iff.2 (fun _ ha _ hb hname => List.inj_on_of_nodup_map h ha hb hname) a ha

/-- Where nothing is called by the camel case of a name, it means what the name means. -/
theorem resolve_lowerCamel {name : List Char} {a : Accessor}
    (hname : ∀ s ∈ segments name, IsSegment s)
    (hnone : schema.field? (String.ofList (lowerCamel name)) = none)
    (ha : schema.field? (String.ofList name) = some a) :
    schema.resolve (String.ofList (lowerCamel name)) = .ok a := by
  rw [resolve, hnone, String.toList_ofList, snakeCase_lowerCamel hname, ha]

/-- **Attributes are reached by method names.**  An attribute whose name starts with a small letter
is found by its name with a capital at the start, and one whose name is in snake case by its
segments with a capital at the start of each, if no word of that is a keyword.  An attribute that is
called by the camel case itself goes first. -/
theorem reached_by_method_name (schema : Schema) (h : (schema.accessors.map (·.name)).Nodup)
    {a : Accessor} (ha : a ∈ schema.accessors) (shape : ResultShape) :
    (a.name.toList.head?.any Char.isLower = true →
      (∀ w ∈ words (capitalize a.name.toList), w ∉ keywords) →
      ∃ q, DerivedQuery.compile ("findBy" ++ String.ofList (capitalize a.name.toList)) shape schema
        = .ok q ∧ q.FindsBy a) ∧
    ((∀ s ∈ segments a.name.toList, IsSegment s ∧ String.ofList (capitalize s) ∉ keywords) →
      ∃ reached, (∃ q, DerivedQuery.compile ("findBy" ++ String.ofList (upperCamel a.name.toList))
          shape schema = .ok q ∧ q.FindsBy reached) ∧
        (∀ b ∈ schema.accessors, b.name = String.ofList (lowerCamel a.name.toList) → reached = b) ∧
        ((∀ b ∈ schema.accessors, b.name = String.ofList (lowerCamel a.name.toList) → b = a) →
          reached = a)) := by
  have hfound : schema.field? (String.ofList a.name.toList) = some a := by
    rw [String.ofList_toList]
    exact field?_of_nodup h ha
  constructor
  · intro hfirst hplain
    cases hname : a.name.toList with
    | nil =>
      rw [hname] at hfirst
      cases hfirst
    | cons c cs =>
      rw [hname] at hfirst hplain hfound
      refine DerivedQuery.findsBy_of_resolve (isField_capitalize hfirst hplain) ?_ shape
      rw [decapitalize_capitalize hfirst]
      exact resolve_eq_of_field? hfound
  · intro hsegments
    have hreach (reached : Accessor)
        (hresolve : schema.resolve (String.ofList (lowerCamel a.name.toList)) = .ok reached) :=
      DerivedQuery.findsBy_of_resolve (isField_upperCamel hsegments) hresolve shape
    cases hexact : schema.field? (String.ofList (lowerCamel a.name.toList)) with
    | none =>
      refine ⟨a, hreach a (resolve_lowerCamel (fun s hs => (hsegments s hs).1) hexact hfound),
        ?_, fun _ => rfl⟩
      intro b hb hname
      rw [← hname, field?_of_nodup h hb] at hexact
      cases hexact
    | some b =>
      have hb : b ∈ schema.accessors := List.mem_of_find?_eq_some hexact
      refine ⟨b, hreach b (resolve_eq_of_field? hexact), ?_, fun honly => ?_⟩
      · intro b' hb' hname
        rw [← hname, field?_of_nodup h hb'] at hexact
        exact (Option.some.inj hexact).symm
      · exact honly b hb (name_of_field? hexact)

/-- Words that only start like keywords, digits, and a name in snake case that loses the spelling to
another attribute. -/
theorem reached_by_method_name_inbox :
    let named (name : String) : Accessor :=
      ⟨name, "Order", "Order", fun r => .integer (.ofNat r.id)⟩
    let schema : Schema := ⟨"Order", "Order", named "nr",
      [named "notesInternal", named "orders_v2_inbox", named "release_year", named "releaseYear"]⟩
    (schema.accessors.map (·.name)).Nodup ∧
    (∃ q, DerivedQuery.compile "findByNotesInternal" .list schema = .ok q ∧
      q.FindsBy (named "notesInternal")) ∧
    (∃ q, DerivedQuery.compile "findByOrdersV2Inbox" .list schema = .ok q ∧
      q.FindsBy (named "orders_v2_inbox")) ∧
    ∃ q, DerivedQuery.compile "findByReleaseYear" .list schema = .ok q ∧
      q.FindsBy (named "releaseYear") := by
  intro named schema
  have hnodup : (schema.accessors.map (·.name)).Nodup := by decide
  have hreached (a : Accessor) (ha : a ∈ schema.accessors) :=
    reached_by_method_name schema hnodup ha .list
  refine ⟨hnodup, ?_, ?_, ?_⟩
  · have hname : "findBy" ++ String.ofList (capitalize (named "notesInternal").name.toList) =
        "findByNotesInternal" := by decide
    have hquery := (hreached (named "notesInternal") (.tail _ (.head _))).1 (by decide) (by decide)
    rw [hname] at hquery
    exact hquery
  · have hname : "findBy" ++ String.ofList (upperCamel (named "orders_v2_inbox").name.toList) =
        "findByOrdersV2Inbox" := by decide
    have hother : ∀ b ∈ schema.accessors,
        b.name ≠ String.ofList (lowerCamel (named "orders_v2_inbox").name.toList) := by decide
    obtain ⟨reached, hquery, -, honly⟩ :=
      (hreached (named "orders_v2_inbox") (.tail _ (.tail _ (.head _)))).2 (by decide)
    rw [hname, honly fun b hb hcamel => absurd hcamel (hother b hb)] at hquery
    exact hquery
  · have hname : "findBy" ++ String.ofList (upperCamel (named "release_year").name.toList) =
        "findByReleaseYear" := by decide
    have hmem : named "releaseYear" ∈ schema.accessors := List.mem_of_getLast? rfl
    obtain ⟨reached, hquery, hexact, -⟩ :=
      (hreached (named "release_year") (.tail _ (.tail _ (.tail _ (.head _))))).2 (by decide)
    rw [hname, hexact (named "releaseYear") hmem (by decide)] at hquery
    exact hquery

end Schema

end EntityStore
