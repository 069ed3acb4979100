import EntityStore.Storage.Store

/-!
# Batches of entries

What filing a batch does to one key depends on the records that the batch has for that key and on
nothing else: the last of them stays (`get?_insertAll`), and an entry of the batch is in place where
the key gets the same record twice in a row (`recordsOf_splitBatch`).  Entries of new keys go to the
end as they come.

    splitBatch c es = (false, _) → c.insertAll es = c                  (insertAll_of_inPlace)
    (keysOf (c.entries ++ es)).Nodup → (c.insertAll es).entries = c.entries ++ es
                                                                          (entries_insertAll)
-/

namespace EntityStore

/-- The records that some entries have for one key, in order. -/
def recordsOf (k : Value) (entries : List (Value × Record)) : List Record :=
  (entries.filter (·.1 = k)).map (·.2)

/-- The records that are equal to the one right before them; `previous` stands before the first. -/
def repeats (previous : Option Record) : List Record → List Record
  | [] => []
  | r :: rs => if previous = some r then r :: repeats (some r) rs else repeats (some r) rs

theorem recordsOf_cons (k : Value) (e : Value × Record) (es : List (Value × Record)) :
    recordsOf k (e :: es) = if e.1 = k then e.2 :: recordsOf k es else recordsOf k es := by
  by_cases h : e.1 = k <;> simp [recordsOf, h]

namespace Container

theorem insertEntry_eq_self {k : Value} {r : Record} {entries : List (Value × Record)}
    (h : findEntry k entries = some r) : insertEntry k r entries = entries := by
  induction entries with
  | nil => cases h
  | cons e rest ih =>
    obtain ⟨a, s⟩ := e
    rw [findEntry] at h
    rw [insertEntry]
    split at h
    · next ha =>
      obtain rfl : s = r := Option.some.inj h
      obtain rfl : a = k := ha
      rw [if_pos rfl]
    · next ha => rw [if_neg ha, ih h]

/-- Filing a record where it is already filed changes nothing. -/
theorem insert_eq_self {c : Container} {k : Value} {r : Record} (h : c.get? k = some r) :
    c.insert k r = c :=
  ext (insertEntry_eq_self h)

theorem insertAll_cons (c : Container) (e : Value × Record) (es : List (Value × Record)) :
    c.insertAll (e :: es) = (c.insert e.1 e.2).insertAll es := rfl

/-- A batch leaves its last record under each of its keys. -/
theorem get?_insertAll (c : Container) (es : List (Value × Record)) (k : Value) :
    (c.insertAll es).get? k = (recordsOf k es).getLast?.or (c.get? k) := by
  induction es generalizing c with
  | nil => rfl
  | cons e es ih =>
    rw [insertAll_cons, ih, recordsOf_cons, get?_insert]
    by_cases h : e.1 = k
    · rw [if_pos h.symm, if_pos h, List.getLast?_cons]
      cases (recordsOf k es).getLast? <;> rfl
    · rw [if_neg (Ne.symm h), if_neg h]

theorem insertEntry_of_not_mem {k : Value} {r : Record} {entries : List (Value × Record)}
    (h : k ∉ keysOf entries) : insertEntry k r entries = entries ++ [(k, r)] := by
  induction entries with
  | nil => rfl
  | cons e rest ih =>
    rw [keysOf_cons, List.mem_cons, not_or] at h
    rw [insertEntry, if_neg (Ne.symm h.1), ih h.2]
    rfl

/-- Entries of new keys, each key once, go to the end. -/
theorem entries_insertAll {c : Container} {es : List (Value × Record)}
    (h : (keysOf (c.entries ++ es)).Nodup) : (c.insertAll es).entries = c.entries ++ es := by
  induction es generalizing c with
  | nil => exact (List.append_nil _).symm
  | cons e es ih =>
    have hnew : e.1 ∉ keysOf c.entries := by
      rw [keysOf, List.map_append, List.nodup_append] at h
      exact fun hold => h.2.2 e.1 hold e.1 List.mem_cons_self rfl
    have hinsert : (c.insert e.1 e.2).entries = c.entries ++ [e] := insertEntry_of_not_mem hnew
    rw [insertAll_cons, ih, hinsert, List.append_assoc]
    · rfl
    · rw [hinsert, List.append_assoc]
      exact h

theorem entries_ofEntries {es : List (Value × Record)} (h : (keysOf es).Nodup) :
    (ofEntries es).entries = es :=
  entries_insertAll h

end Container

/-! ## Entries in place -/

namespace Store

theorem splitBatch_cons (c : Container) (e : Value × Record) (es : List (Value × Record)) :
    splitBatch c (e :: es) =
      if c.get? e.1 = some e.2 then
        ((splitBatch (c.insert e.1 e.2) es).1, e :: (splitBatch (c.insert e.1 e.2) es).2)
      else (true, (splitBatch (c.insert e.1 e.2) es).2) := rfl

/-- Where every entry of a batch is in place, filing the batch changes nothing. -/
theorem insertAll_of_inPlace {c : Container} {es : List (Value × Record)}
    (h : (splitBatch c es).1 = false) : c.insertAll es = c := by
  induction es generalizing c with
  | nil => rfl
  | cons e es ih =>
    rw [splitBatch_cons] at h
    split at h
    · next he =>
      rw [Container.insert_eq_self he] at h
      rw [Container.insertAll_cons, Container.insert_eq_self he, ih h]
    · cases h

/-- A batch with nothing in place and nothing else is empty. -/
theorem eq_nil_of_splitBatch {c : Container} {es : List (Value × Record)}
    (hs : (splitBatch c es).1 = false) (hp : (splitBatch c es).2 = []) : es = [] := by
  cases es with
  | nil => rfl
  | cons e es =>
    rw [splitBatch_cons] at hs hp
    split at hs
    · next he => rw [if_pos he] at hp; cases hp
    · cases hs

/-- For each key the entries in place are those whose record the key already had. -/
theorem recordsOf_splitBatch (c : Container) (es : List (Value × Record)) (k : Value) :
    recordsOf k (splitBatch c es).2 = repeats (c.get? k) (recordsOf k es) := by
  induction es generalizing c with
  | nil => rfl
  | cons e es ih =>
    have hrest := ih (c.insert e.1 e.2)
    rw [Container.get?_insert] at hrest
    rw [splitBatch_cons, recordsOf_cons]
    by_cases hk : e.1 = k
    · subst hk
      rw [if_pos rfl] at hrest ⊢
      rw [repeats]
      split
      · rw [recordsOf_cons, if_pos rfl, hrest]
      · exact hrest
    · rw [if_neg (Ne.symm hk)] at hrest
      rw [if_neg hk]
      split
      · rw [recordsOf_cons, if_neg hk, hrest]
      · exact hrest

end Store

end EntityStore
