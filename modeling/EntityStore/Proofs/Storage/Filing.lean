import EntityStore.Proofs.Storage.FiniteMap

/-!
# Entries under their identifiers

A catalog files a container if every entry is under the identifier which the type of its record
reads off the record, and that is not `null`.  The keys are shared by all types, so an entry of one
type may give way to one of another; but a write that files records under their identifiers, or
files none, leaves the container filed.  No two instances of a type have one identifier then.

    catalog.Files s.contents → (∀ e ∈ w.filed, catalog.Keyed e) →
      catalog.Files (w.after s).contents                                           (Files.after)
    catalog.Files c → catalog.schema type = .ok schema → schema.Distinct c.records
                                                                        (Files.distinct_records)
-/

namespace EntityStore

/-- What is in the container after a write was there before or is filed by it. -/
theorem Write.get?_after_eq_some {w : Write} {s : Store} {k : Value} {r : Record}
    (h : (w.after s).contents.get? k = some r) :
    s.contents.get? k = some r ∨ (k, r) ∈ w.filed := by
  cases hsucceeds : w.succeeds s with
  | false =>
    rw [after_of_fails hsucceeds] at h
    exact .inl h
  | true =>
    rw [get?_after_of_succeeds hsucceeds] at h
    split at h
    · cases h
    · rcases Option.or_eq_some_iff.1 h with hfiled | ⟨-, hstays⟩
      · rw [files?_eq] at hfiled
        obtain ⟨e, he, rfl⟩ := List.mem_map.1 (List.mem_of_getLast? hfiled)
        obtain ⟨hmem, hkey⟩ := List.mem_filter.1 he
        obtain rfl : e.1 = k := of_decide_eq_true hkey
        exact .inr hmem
      · exact .inl hstays

theorem Schema.ne_null_of_key {schema : Schema} {record : Record} {key : Value}
    (h : schema.key record = .ok key) : key ≠ .null ∧ key = schema.identifier.read record := by
  unfold Schema.key at h
  dsimp only at h
  split at h
  · cases h
  · next hnull =>
    cases h
    exact ⟨fun hkey => hnull (Value.isNull_iff.2 hkey), rfl⟩

theorem Schema.instance?_eq_some_iff {schema : Schema} {record r : Record} :
    schema.instance? record = some r ↔ schema.isInstance record = true ∧ r = record := by
  unfold instance?
  split
  · next h => simp [h, eq_comm]
  · next h => simp [h]

/-- No two instances of the type among the records have one identifier. -/
def Schema.Distinct (schema : Schema) (records : List Record) : Prop :=
  ((schema.instances records).map schema.identifier.read).Nodup

namespace Schema.Distinct

variable {schema : Schema} {rs rs' : List Record}

theorem sublist (h : schema.Distinct rs) (hsub : rs'.Sublist rs) : schema.Distinct rs' :=
  ((hsub.filter _).map _).nodup h

theorem perm (h : schema.Distinct rs) (hperm : rs'.Perm rs) : schema.Distinct rs' :=
  ((hperm.filter _).map _).nodup_iff.2 h

end Schema.Distinct

namespace Catalog

/-- What the type of a record reads off it as its identifier, if the type is registered. -/
def identifier? (catalog : Catalog) (record : Record) : Option Value :=
  (catalog.schemas.find? (·.typeName = record.typeName)).map (·.identifier.read record)

/-- The entry is under the identifier of its record. -/
def Keyed (catalog : Catalog) (e : Value × Record) : Prop :=
  e.1 ≠ .null ∧ catalog.identifier? e.2 = some e.1

def Files (catalog : Catalog) (c : Container) : Prop := ∀ e ∈ c.entries, catalog.Keyed e

variable {catalog : Catalog} {type : EntityType} {schema : Schema}

/-! ## Registered types -/

theorem schema_eq_ok_iff : catalog.schema type = .ok schema ↔ catalog.find? type = some schema := by
  unfold Catalog.schema
  cases catalog.find? type with
  | none => simp
  | some schema' => simp

theorem typeName_of_schema (h : catalog.schema type = .ok schema) :
    schema.typeName = type.typeName := by
  simpa using List.find?_some (schema_eq_ok_iff.1 h)

theorem isInstance_iff (h : catalog.schema type = .ok schema) {record : Record} :
    schema.isInstance record = true ↔ record.typeName = type.typeName := by
  rw [Schema.isInstance, decide_eq_true_iff, typeName_of_schema h]

theorem identifier?_of_isInstance (h : catalog.schema type = .ok schema) {record : Record}
    (hinst : schema.isInstance record = true) :
    catalog.identifier? record = some (schema.identifier.read record) := by
  rw [identifier?, (isInstance_iff h).1 hinst]
  show (catalog.find? type).map _ = _
  rw [schema_eq_ok_iff.1 h]
  rfl

theorem keyed_of_entry (h : catalog.schema type = .ok schema) {record : Record}
    (htype : record.typeName = type.typeName) {e : Value × Record}
    (he : schema.entry record = .ok e) : catalog.Keyed e := by
  obtain ⟨key, hkey, he⟩ := bind_eq_ok.1 he
  cases he
  obtain ⟨hnull, rfl⟩ := Schema.ne_null_of_key hkey
  exact ⟨hnull, identifier?_of_isInstance h ((isInstance_iff h).2 htype)⟩

/-! ## One write -/

theorem Files.after {s : Store} {w : Write} (h : catalog.Files s.contents)
    (hw : ∀ e ∈ w.filed, catalog.Keyed e) : catalog.Files (w.after s).contents := by
  intro e he
  rcases Write.get?_after_eq_some (Container.get?_eq_some_iff.2 he) with hstays | hfiled
  · exact h e (Container.get?_eq_some_iff.1 hstays)
  · exact hw e hfiled

theorem keyed_of_update {record : Record} (hr : record.typeName = type.typeName) :
    ∀ e ∈ (Write.update catalog type record).filed, catalog.Keyed e := by
  intro e he
  rw [Write.filed] at he
  cases hentry : (catalog.schema type).bind fun schema => schema.entry record with
  | error failure =>
    rw [hentry] at he
    cases he
  | ok e' =>
    rw [hentry] at he
    obtain rfl : e = e' := List.mem_singleton.1 he
    obtain ⟨schema, hschema, hentry⟩ := bind_eq_ok.1 hentry
    exact keyed_of_entry hschema hr hentry

theorem keyed_of_updateAll {records : List Record}
    (hrs : ∀ record ∈ records, record.typeName = type.typeName) :
    ∀ e ∈ (Write.updateAll catalog type records).filed, catalog.Keyed e := by
  intro e he
  replace he : e ∈ (Write.updateAll catalog type records).offered := he
  rw [Write.offered] at he
  cases hschema : catalog.schema type with
  | error failure =>
    rw [hschema] at he
    cases he
  | ok schema =>
    rw [hschema] at he
    dsimp only at he
    cases hbatch : records.mapM schema.entry with
    | error failure =>
      rw [hbatch] at he
      cases he
    | ok batch =>
      rw [hbatch] at he
      obtain ⟨record, hrecord, hentry⟩ := exists_of_mem_mapM hbatch he
      exact keyed_of_entry hschema (hrs record hrecord) hentry

/-! ## Reading -/

theorem find_eq_ok_some_iff (hschema : catalog.schema type = .ok schema) {k : Value} {r : Record}
    {s : Store} : catalog.find type k s = .ok (some r) ↔
      s.contents.get? k = some r ∧ schema.isInstance r = true := by
  unfold find
  rw [hschema]
  show Except.ok ((s.contents.get? k).bind schema.instance?) = .ok (some r) ↔ _
  rw [Except.ok.injEq, Option.bind_eq_some_iff]
  constructor
  · rintro ⟨r', hr', hinst⟩
    obtain ⟨hinst, rfl⟩ := Schema.instance?_eq_some_iff.1 hinst
    exact ⟨hr', hinst⟩
  · rintro ⟨hr, hinst⟩
    exact ⟨r, hr, Schema.instance?_eq_some_iff.2 ⟨hinst, rfl⟩⟩

namespace Files

variable {c : Container} (h : catalog.Files c)
include h

theorem of_get? {k : Value} {r : Record} (hk : c.get? k = some r) : catalog.Keyed (k, r) :=
  h _ (Container.get?_eq_some_iff.1 hk)

section
variable (hschema : catalog.schema type = .ok schema)
include hschema

theorem identifier_eq {e : Value × Record} (he : e ∈ c.entries)
    (hinst : schema.isInstance e.2 = true) : schema.identifier.read e.2 = e.1 := by
  have hkey := (h e he).2
  rw [identifier?_of_isInstance hschema hinst] at hkey
  exact Option.some.inj hkey

/-- An instance is found under its identifier and nowhere else. -/
theorem get?_eq_some_iff {k : Value} {r : Record} (hr : schema.isInstance r = true) :
    c.get? k = some r ↔ r ∈ c.records ∧ schema.identifier.read r = k := by
  rw [Container.get?_eq_some_iff]
  constructor
  · intro he
    exact ⟨List.mem_map_of_mem he, h.identifier_eq hschema he hr⟩
  · rintro ⟨hmem, rfl⟩
    obtain ⟨e, he, rfl⟩ := List.mem_map.1 hmem
    rw [h.identifier_eq hschema he hr]
    exact he

/-- Instances have different identifiers, since they are under different keys. -/
theorem distinct_records : schema.Distinct c.records := by
  have hkeys : (schema.instances c.records).map schema.identifier.read =
      keysOf (c.entries.filter fun e => schema.isInstance e.2) := by
    rw [Container.records, Schema.instances, List.filter_map, List.map_map, keysOf]
    refine List.map_congr_left fun e he => ?_
    obtain ⟨hmem, hinst⟩ := List.mem_filter.1 he
    exact h.identifier_eq hschema hmem hinst
  rw [Schema.Distinct, hkeys]
  exact (List.filter_sublist.map _).nodup c.nodup

end

end Files

end Catalog

end EntityStore
