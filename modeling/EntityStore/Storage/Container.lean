import EntityStore.Entity.Record
import EntityStore.Value.TotalOrder

/-!
# Containers

A container files records under keys, each key once, in the order in which the keys came in.  Its
view is `get?`, a partial function on keys.

    (c.insert k r).get? k' = if k' = k then some r else c.get? k'          (get?_insert)
    (c.erase k).get? k' = if k' = k then none else c.get? k'               (get?_erase)
    c.get? k = some r ↔ (k, r) ∈ c.entries                                 (get?_eq_some_iff)
-/

namespace EntityStore

/-- The keys of some entries. -/
def keysOf (entries : List (Value × Record)) : List Value := entries.map (·.1)

theorem keysOf_cons (e : Value × Record) (rest : List (Value × Record)) :
    keysOf (e :: rest) = e.1 :: keysOf rest := rfl

structure Container where
  entries : List (Value × Record)
  nodup : (keysOf entries).Nodup

namespace Container

/-! ## Entries -/

/-- The record replaces the one under its key, or goes to the end. -/
def insertEntry (k : Value) (r : Record) : List (Value × Record) → List (Value × Record)
  | [] => [(k, r)]
  | e :: rest => if e.1 = k then (k, r) :: rest else e :: insertEntry k r rest

def eraseEntry (k : Value) (entries : List (Value × Record)) : List (Value × Record) :=
  entries.filter (·.1 ≠ k)

def findEntry (k : Value) : List (Value × Record) → Option Record
  | [] => none
  | e :: rest => if e.1 = k then some e.2 else findEntry k rest

theorem keysOf_insertEntry (k : Value) (r : Record) (entries : List (Value × Record)) :
    keysOf (insertEntry k r entries)
      = if k ∈ keysOf entries then keysOf entries else keysOf entries ++ [k] := by
  induction entries with
  | nil => simp [insertEntry, keysOf]
  | cons e rest ih =>
    by_cases h : e.1 = k
    · simp [insertEntry, keysOf, h]
    · have h' : ¬ k = e.1 := fun hk => h hk.symm
      rw [insertEntry, if_neg h, keysOf_cons, keysOf_cons, ih]
      by_cases hm : k ∈ keysOf rest <;> simp [hm, h']

theorem nodup_insertEntry {k : Value} {r : Record} {entries : List (Value × Record)}
    (h : (keysOf entries).Nodup) : (keysOf (insertEntry k r entries)).Nodup := by
  rw [keysOf_insertEntry]
  split
  · exact h
  · next hk => exact List.nodup_append.2 ⟨h, by simp, by simp; intro a ha hak; exact hk (hak ▸ ha)⟩

theorem nodup_eraseEntry {k : Value} {entries : List (Value × Record)}
    (h : (keysOf entries).Nodup) : (keysOf (eraseEntry k entries)).Nodup :=
  (List.Sublist.map _ List.filter_sublist).nodup h

theorem findEntry_insertEntry (k k' : Value) (r : Record) (entries : List (Value × Record)) :
    findEntry k' (insertEntry k r entries) = if k' = k then some r else findEntry k' entries := by
  induction entries with
  | nil => simp [insertEntry, findEntry, eq_comm]
  | cons e rest ih =>
    by_cases h : e.1 = k <;> by_cases h' : k' = k <;> by_cases h'' : e.1 = k' <;>
      simp_all [insertEntry, findEntry, eq_comm]

theorem findEntry_eraseEntry (k k' : Value) (entries : List (Value × Record)) :
    findEntry k' (eraseEntry k entries) = if k' = k then none else findEntry k' entries := by
  induction entries with
  | nil => simp [eraseEntry, findEntry]
  | cons e rest ih =>
    rw [eraseEntry] at ih
    by_cases h : e.1 = k <;> by_cases h' : k' = k <;> by_cases h'' : e.1 = k' <;>
      simp_all [eraseEntry, findEntry]

theorem findEntry_eq_some_iff {k : Value} {r : Record} {entries : List (Value × Record)}
    (h : (keysOf entries).Nodup) : findEntry k entries = some r ↔ (k, r) ∈ entries := by
  induction entries with
  | nil => simp [findEntry]
  | cons e rest ih =>
    obtain ⟨a, s⟩ := e
    simp only [keysOf, List.map_cons, List.nodup_cons] at h
    have ih' := ih h.2
    by_cases hk : a = k
    · subst hk
      simp only [findEntry, if_true, Option.some.injEq, List.mem_cons, Prod.mk.injEq, true_and]
      refine ⟨fun hr => .inl hr.symm, fun hr => ?_⟩
      rcases hr with hr | hr
      · exact hr.symm
      · exact absurd (List.mem_map_of_mem hr) h.1
    · have hk' : ¬ k = a := fun e => hk e.symm
      simp [findEntry, hk, hk', ih']

/-! ## Operations -/

def empty : Container := ⟨[], List.nodup_nil⟩

instance : Inhabited Container := ⟨empty⟩

def get? (c : Container) (k : Value) : Option Record := findEntry k c.entries

def contains (c : Container) (k : Value) : Bool := (c.get? k).isSome

def insert (c : Container) (k : Value) (r : Record) : Container :=
  ⟨insertEntry k r c.entries, nodup_insertEntry c.nodup⟩

def erase (c : Container) (k : Value) : Container :=
  ⟨eraseEntry k c.entries, nodup_eraseEntry c.nodup⟩

/-- Later entries replace earlier ones of the same key. -/
def insertAll (c : Container) (entries : List (Value × Record)) : Container :=
  entries.foldl (fun c e => c.insert e.1 e.2) c

def eraseAll (c : Container) (keys : List Value) : Container := keys.foldl erase c

def ofEntries (entries : List (Value × Record)) : Container := empty.insertAll entries

def keys (c : Container) : List Value := keysOf c.entries

def records (c : Container) : List Record := c.entries.map (·.2)

/-- The entries in the order of their keys. -/
def sorted (c : Container) : List (Value × Record) :=
  c.entries.mergeSort fun a b => a.1.cmp b.1 != .gt

def size (c : Container) : Nat := c.entries.length

def isEmpty (c : Container) : Bool := c.entries.isEmpty

/-! ## Lemmas -/

@[ext] theorem ext {c d : Container} (h : c.entries = d.entries) : c = d := by
  cases c; cases d; cases h; rfl

@[simp] theorem get?_empty (k : Value) : empty.get? k = none := rfl

theorem get?_insert (c : Container) (k k' : Value) (r : Record) :
    (c.insert k r).get? k' = if k' = k then some r else c.get? k' :=
  findEntry_insertEntry k k' r c.entries

theorem get?_erase (c : Container) (k k' : Value) :
    (c.erase k).get? k' = if k' = k then none else c.get? k' :=
  findEntry_eraseEntry k k' c.entries

theorem get?_eq_some_iff {c : Container} {k : Value} {r : Record} :
    c.get? k = some r ↔ (k, r) ∈ c.entries :=
  findEntry_eq_some_iff c.nodup

end Container

end EntityStore
