import EntityStore.Entity.Declaration

/-!
# Attributes under their own names

A schema keeps every attribute that its type declares, and looks an attribute up by name alone: the
identifier first, then the columns in their order.  Of several attributes with one name the first
hides the others, so each attribute is found under its own name exactly where attributes of one name
read the same.

    (∃ s, Schema.of t = .ok s) ↔ t.attributes.countP (·.kind = .identifier) = 1    (exists_of_iff)
    Schema.of t = .ok s → (a ∈ s.accessors ↔ ∃ x ∈ t.attributes, t.accessor x = a)
                                                                             (mem_accessors_iff)
    s.accessors = before ++ a :: after →
      s.field? a.name = some ((before.find? (·.name = a.name)).getD a)            (field?_of_split)
-/

namespace EntityStore

theorem EntityType.mem_accessorsOf_iff {type : EntityType} {kind : AttributeKind} {a : Accessor} :
    a ∈ type.accessorsOf kind ↔ ∃ x ∈ type.attributes, x.kind = kind ∧ type.accessor x = a := by
  simp [accessorsOf, and_assoc]

theorem EntityType.length_accessorsOf (type : EntityType) (kind : AttributeKind) :
    (type.accessorsOf kind).length = type.attributes.countP (·.kind = kind) := by
  rw [accessorsOf, List.length_map, List.countP_eq_length_filter]

namespace Schema

variable {type : EntityType} {schema : Schema}

/-! ## Building -/

theorem of_eq_ok_iff : Schema.of type = .ok schema ↔
    schema.name = type.name ∧ schema.typeName = type.typeName ∧
      type.accessorsOf .identifier = [schema.identifier] ∧
      schema.columns = type.accessorsOf .column := by
  obtain ⟨name, typeName, identifier, columns⟩ := schema
  unfold Schema.of
  split
  · next h => simp [h]
  · next a h =>
    rw [h, Except.ok.injEq, mk.injEq, List.singleton_inj]
    constructor
    · rintro ⟨rfl, rfl, rfl, rfl⟩
      exact ⟨rfl, rfl, rfl, rfl⟩
    · rintro ⟨rfl, rfl, rfl, rfl⟩
      exact ⟨rfl, rfl, rfl, rfl⟩
  · next h => simp [h]

theorem exists_of_iff :
    (∃ schema, Schema.of type = .ok schema) ↔
      type.attributes.countP (·.kind = .identifier) = 1 := by
  rw [← type.length_accessorsOf, List.length_eq_one_iff]
  constructor
  · rintro ⟨schema, h⟩
    exact ⟨schema.identifier, (of_eq_ok_iff.1 h).2.2.1⟩
  · rintro ⟨identifier, h⟩
    exact ⟨⟨type.name, type.typeName, identifier, type.accessorsOf .column⟩,
      of_eq_ok_iff.2 ⟨rfl, rfl, h, rfl⟩⟩

/-- No attribute is lost, and none is made up. -/
theorem mem_accessors_iff (h : Schema.of type = .ok schema) {a : Accessor} :
    a ∈ schema.accessors ↔ ∃ x ∈ type.attributes, type.accessor x = a := by
  obtain ⟨-, -, hidentifier, hcolumns⟩ := of_eq_ok_iff.1 h
  have hmem : a ∈ schema.accessors ↔
      a ∈ type.accessorsOf .identifier ∨ a ∈ type.accessorsOf .column := by
    rw [accessors, hidentifier, hcolumns, List.mem_cons, List.mem_singleton]
  rw [hmem, EntityType.mem_accessorsOf_iff, EntityType.mem_accessorsOf_iff]
  constructor
  · rintro (⟨x, hx, -, rfl⟩ | ⟨x, hx, -, rfl⟩)
    · exact ⟨x, hx, rfl⟩
    · exact ⟨x, hx, rfl⟩
  · rintro ⟨x, hx, rfl⟩
    cases hkind : x.kind with
    | identifier => exact .inl ⟨x, hx, hkind, rfl⟩
    | column => exact .inr ⟨x, hx, hkind, rfl⟩

/-! ## Looking up -/

theorem field?_of_split {before after : List Accessor} {a : Accessor}
    (h : schema.accessors = before ++ a :: after) :
    schema.field? a.name = some ((before.find? (·.name = a.name)).getD a) := by
  have hself : (a :: after).find? (·.name = a.name) = some a :=
    List.find?_cons_of_pos (decide_eq_true rfl)
  rw [field?, h, List.find?_append, hself]
  cases before.find? (·.name = a.name) with
  | none => rfl
  | some b => rfl

theorem exists_field? {a : Accessor} (h : a ∈ schema.accessors) :
    ∃ first ∈ schema.accessors, schema.field? a.name = some first ∧ first.name = a.name := by
  have hsome : (schema.field? a.name).isSome = true :=
    List.find?_isSome.2 ⟨a, h, decide_eq_true rfl⟩
  obtain ⟨first, hfirst⟩ := Option.isSome_iff_exists.1 hsome
  exact ⟨first, List.mem_of_find?_eq_some hfirst, hfirst, name_of_field? hfirst⟩

theorem field?_name_iff :
    (∀ a ∈ schema.accessors, schema.field? a.name = some a) ↔
      ∀ a ∈ schema.accessors, ∀ b ∈ schema.accessors, a.name = b.name → a = b := by
  constructor
  · intro h a ha b hb hname
    have hfound := h a ha
    rw [hname, h b hb, Option.some.injEq] at hfound
    exact hfound.symm
  · intro h a ha
    obtain ⟨first, hmem, hfirst, hname⟩ := exists_field? ha
    rw [hfirst, h first hmem a ha hname]

/-- Accessors of one type are told apart by the names and readers of what is declared. -/
theorem accessors_eq_iff (h : Schema.of type = .ok schema) :
    (∀ a ∈ schema.accessors, ∀ b ∈ schema.accessors, a.name = b.name → a = b) ↔
      ∀ x ∈ type.attributes, ∀ y ∈ type.attributes, x.name = y.name → x.read = y.read := by
  constructor
  · intro hsame x hx y hy hname
    exact congrArg Accessor.read (hsame _ ((mem_accessors_iff h).2 ⟨x, hx, rfl⟩)
      _ ((mem_accessors_iff h).2 ⟨y, hy, rfl⟩) hname)
  · intro hread a ha b hb hname
    obtain ⟨x, hx, rfl⟩ := (mem_accessors_iff h).1 ha
    obtain ⟨y, hy, rfl⟩ := (mem_accessors_iff h).1 hb
    rw [EntityType.accessor, EntityType.accessor, Accessor.mk.injEq]
    exact ⟨hname, rfl, rfl, hread x hx y hy hname⟩

/-- **Each attribute is found under its own name iff attributes of one name read the same.**  A
schema exists where exactly one attribute is the identifier, and keeps the columns in their order;
what a name finds, exactly or by the spelling of a query, is the first attribute with this name. -/
theorem found_by_own_name_iff (type : EntityType) :
    ((∃ schema, Schema.of type = .ok schema) ↔
      type.attributes.countP (·.kind = .identifier) = 1) ∧
    ∀ schema, Schema.of type = .ok schema →
      type.accessorsOf .identifier = [schema.identifier] ∧
      schema.columns = type.accessorsOf .column ∧
      (∀ before a after, schema.accessors = before ++ a :: after →
        schema.field? a.name = some ((before.find? (·.name = a.name)).getD a) ∧
        schema.resolve a.name = .ok ((before.find? (·.name = a.name)).getD a)) ∧
      ((∀ a ∈ schema.accessors, schema.field? a.name = some a ∧ schema.resolve a.name = .ok a) ↔
        ∀ x ∈ type.attributes, ∀ y ∈ type.attributes, x.name = y.name → x.read = y.read) := by
  refine ⟨exists_of_iff, ?_⟩
  intro schema h
  obtain ⟨-, -, hidentifier, hcolumns⟩ := of_eq_ok_iff.1 h
  refine ⟨hidentifier, hcolumns, ?_, ?_⟩
  · intro before a after hsplit
    have hfield := field?_of_split hsplit
    exact ⟨hfield, resolve_eq_of_field? hfield⟩
  · rw [← accessors_eq_iff h, ← field?_name_iff]
    constructor
    · intro hall a ha
      exact (hall a ha).1
    · intro hall a ha
      exact ⟨hall a ha, resolve_eq_of_field? (hall a ha)⟩

/-- Two names that a query may spell alike are still two names. -/
theorem found_by_own_name_release_year :
    let type : EntityType := ⟨"Book", "Book",
      [⟨"release_year", .column, fun _ => .integer 1965⟩, ⟨"isbn", .identifier, fun _ => .text "1"⟩,
        ⟨"releaseYear", .column, fun _ => .null⟩]⟩
    ∃ schema, Schema.of type = .ok schema ∧ schema.accessors.length = 3 ∧
      ∀ a ∈ schema.accessors, schema.field? a.name = some a ∧ schema.resolve a.name = .ok a := by
  intro type
  obtain ⟨-, hbuilt⟩ := found_by_own_name_iff type
  obtain ⟨-, -, -, hfound⟩ := hbuilt _ rfl
  refine ⟨_, rfl, rfl, hfound.2 ?_⟩
  simp [type]

end Schema

/-- A member that takes over the name of another one is kept, but cannot be reached: whoever asks
for it reads the other. -/
theorem Declaration.renamed_member_hidden :
    let type := entityType ⟨"Book", [⟨"isbn", .text, some .identifier, none⟩,
      ⟨"title", .text, some .column, none⟩, ⟨"subtitle", .text, some .column, some "title"⟩]⟩ "Book"
      ⟨#[[("isbn", .text "1"), ("title", .text "Dune"), ("subtitle", .text "Part one")]]⟩
    ∃ schema hidden found, Schema.of type = .ok schema ∧ hidden ∈ schema.columns ∧
      schema.field? hidden.name = some found ∧ schema.resolve hidden.name = .ok found ∧
      hidden.read ⟨0, "Book"⟩ = .text "Part one" ∧ found.read ⟨0, "Book"⟩ = .text "Dune" :=
  ⟨_, _, _, rfl, .tail _ (.head _), rfl, rfl, rfl, rfl⟩

end EntityStore
