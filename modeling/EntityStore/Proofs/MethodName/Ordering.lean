import EntityStore.MethodName.Query
import EntityStore.Proofs.Outcome

/-!
# Sort keys as they are written

What a group of a name is read as: keys that a direction ends, and at the end of the group perhaps
one more that goes without.  A group is accepted exactly when it is written so, and the ordering of
a name exactly when all its groups are and one of them has a key.

    groupKeys method [] ws = .ok keys ↔
      ∃ g : SortGroup, g.Readable ∧ ws = g.words ∧ keys = g.keys           (groupKeys_eq_ok_iff)
    ordering method groups = .ok sorts ↔ ∃ gs : List SortGroup, (∀ g ∈ gs, g.Readable) ∧
      groups = gs.map SortGroup.words ∧ sorts = gs.flatMap SortGroup.keys ∧
      (gs = [] ∨ ∃ g ∈ gs, g.words ≠ [])                                   (ordering_eq_ok_iff)
-/

namespace EntityStore.MethodName

/-! ## Directions -/

/-- No word is a direction. -/
def DirectionFree (ws : List String) : Prop := ∀ w ∈ ws, direction? w = none

theorem direction?_eq_some_iff {w : String} {d : Direction} :
    direction? w = some d ↔ w = d.name := by
  unfold direction?
  constructor
  · intro h
    split at h
    · next hasc => cases h; exact hasc
    · split at h
      · next hdesc => cases h; exact hdesc
      · cases h
  · rintro rfl
    cases d with
    | asc => rfl
    | desc => rfl

theorem direction?_eq_none_iff {w : String} : direction? w = none ↔ w ≠ "Asc" ∧ w ≠ "Desc" := by
  unfold direction?
  constructor
  · intro h
    split at h
    · cases h
    · next hasc =>
      split at h
      · cases h
      · next hdesc => exact ⟨hasc, hdesc⟩
  · rintro ⟨hasc, hdesc⟩
    rw [if_neg hasc, if_neg hdesc]

/-! ## Groups -/

/-- The sort keys of one group: fields with their directions, and the field of a last key that goes
without, no words if there is none. -/
structure SortGroup where
  directed : List (List String × Direction)
  bare : List String
deriving DecidableEq

namespace SortGroup

def words (g : SortGroup) : List String :=
  g.directed.flatMap (fun key => key.1 ++ [key.2.name]) ++ g.bare

/-- What the group sorts by; a key without direction is ascending. -/
def keys (g : SortGroup) : List SortKey :=
  g.directed.map (fun key => ⟨fieldName key.1, key.2⟩) ++
    if g.bare = [] then [] else [⟨fieldName g.bare, .asc⟩]

/-- Every direction follows a field, and no field has a direction in it. -/
structure Readable (g : SortGroup) : Prop where
  directed : ∀ key ∈ g.directed, key.1 ≠ [] ∧ DirectionFree key.1
  bare : DirectionFree g.bare

theorem words_eq_nil_iff {g : SortGroup} : g.words = [] ↔ g.directed = [] ∧ g.bare = [] := by
  rw [words, List.append_eq_nil_iff]
  refine and_congr_left fun _ => ?_
  cases g.directed with
  | nil => simp
  | cons key rest => simp

theorem keys_eq_nil_iff {g : SortGroup} : g.keys = [] ↔ g.words = [] := by
  rw [words_eq_nil_iff, keys, List.append_eq_nil_iff, List.map_eq_nil_iff]
  refine and_congr_right fun _ => ?_
  by_cases hbare : g.bare = []
  · simp [hbare]
  · simp [hbare]

end SortGroup

section
variable {method : String}

theorem groupKeys_append {ws : List String} (h : DirectionFree ws) (field rest : List String) :
    groupKeys method field (ws ++ rest) = groupKeys method (field ++ ws) rest := by
  induction ws generalizing field with
  | nil => rw [List.nil_append, List.append_nil]
  | cons w ws ih =>
    obtain ⟨hw, hws⟩ := List.forall_mem_cons.1 h
    rw [List.cons_append, groupKeys, hw]
    dsimp only
    rw [ih hws, List.append_assoc, List.singleton_append]

theorem groupKeys_directed {field : List String} (hne : field ≠ []) (h : DirectionFree field)
    (d : Direction) (rest : List String) :
    groupKeys method [] (field ++ [d.name] ++ rest)
      = (groupKeys method [] rest).map (⟨fieldName field, d⟩ :: ·) := by
  rw [List.append_assoc, groupKeys_append h, List.nil_append, List.singleton_append, groupKeys,
    direction?_eq_some_iff.2 rfl]
  dsimp only
  rw [if_neg (by rw [List.isEmpty_iff]; exact hne)]

theorem groupKeys_words {g : SortGroup} (h : g.Readable) :
    groupKeys method [] g.words = .ok g.keys := by
  obtain ⟨directed, bare⟩ := g
  have hdirected : ∀ key ∈ directed, key.1 ≠ [] ∧ DirectionFree key.1 := h.directed
  have hbare : DirectionFree bare := h.bare
  clear h
  induction directed with
  | nil =>
    calc groupKeys method [] bare
        = groupKeys method [] (bare ++ []) := by rw [List.append_nil]
      _ = groupKeys method ([] ++ bare) [] := groupKeys_append hbare [] []
      _ = .ok (SortGroup.keys ⟨[], bare⟩) := by simp [groupKeys, SortGroup.keys]
  | cons key rest ih =>
    rw [List.forall_mem_cons] at hdirected
    have hrest := ih hdirected.2
    rw [SortGroup.words, List.flatMap_cons, List.append_assoc,
      groupKeys_directed hdirected.1.1 hdirected.1.2]
    rw [SortGroup.words] at hrest
    rw [hrest]
    rfl

/-- The invariant of the reader: the words of the key that is being read hold no direction, and
with the words to come they make up a group. -/
theorem exists_of_groupKeys {ws field : List String} {keys : List SortKey}
    (hfield : DirectionFree field) (h : groupKeys method field ws = .ok keys) :
    ∃ g : SortGroup, g.Readable ∧ field ++ ws = g.words ∧ keys = g.keys := by
  induction ws generalizing field keys with
  | nil =>
    refine ⟨⟨[], field⟩, ⟨List.forall_mem_nil _, hfield⟩, ?_, ?_⟩
    · rw [List.append_nil]
      rfl
    · rw [groupKeys] at h
      cases h
      simp [SortGroup.keys]
  | cons w ws ih =>
    rw [groupKeys] at h
    cases hw : direction? w with
    | none =>
      rw [hw] at h
      have hfield' : DirectionFree (field ++ [w]) := by
        intro v hv
        rcases List.mem_append.1 hv with hv | hv
        · exact hfield v hv
        · rw [List.mem_singleton.1 hv]
          exact hw
      obtain ⟨g, hg, hwords, hkeys⟩ := ih hfield' h
      rw [List.append_assoc, List.singleton_append] at hwords
      exact ⟨g, hg, hwords, hkeys⟩
    | some d =>
      rw [hw] at h
      dsimp only at h
      split at h
      · cases h
      · next hne =>
        rw [List.isEmpty_iff] at hne
        obtain ⟨rest, hrest, rfl⟩ := map_eq_ok.1 h
        obtain ⟨g, hg, hwords, rfl⟩ := ih (List.forall_mem_nil _) hrest
        refine ⟨⟨(field, d) :: g.directed, g.bare⟩,
          ⟨List.forall_mem_cons.2 ⟨⟨hne, hfield⟩, hg.directed⟩, hg.bare⟩, ?_, rfl⟩
        rw [List.nil_append] at hwords
        rw [direction?_eq_some_iff.1 hw, hwords, SortGroup.words, SortGroup.words,
          List.flatMap_cons, List.append_assoc, List.append_assoc]
        rfl

theorem groupKeys_eq_ok_iff {ws : List String} {keys : List SortKey} :
    groupKeys method [] ws = .ok keys ↔
      ∃ g : SortGroup, g.Readable ∧ ws = g.words ∧ keys = g.keys := by
  constructor
  · exact exists_of_groupKeys (List.forall_mem_nil _)
  · rintro ⟨g, hg, rfl, rfl⟩
    exact groupKeys_words hg

/-! ## Orderings -/

theorem mapM_groupKeys_eq_ok_iff {groups : List (List String)} {keys : List (List SortKey)} :
    groups.mapM (groupKeys method []) = .ok keys ↔ ∃ gs : List SortGroup, (∀ g ∈ gs, g.Readable) ∧
      groups = gs.map SortGroup.words ∧ keys = gs.map SortGroup.keys := by
  induction groups generalizing keys with
  | nil =>
    constructor
    · intro h
      cases h
      exact ⟨[], List.forall_mem_nil _, rfl, rfl⟩
    · rintro ⟨gs, -, hgroups, rfl⟩
      rw [List.map_eq_nil_iff.1 hgroups.symm]
      rfl
  | cons group groups ih =>
    rw [mapM_cons_eq_ok]
    constructor
    · rintro ⟨first, rest, hfirst, hrest, rfl⟩
      obtain ⟨g, hg, rfl, rfl⟩ := groupKeys_eq_ok_iff.1 hfirst
      obtain ⟨gs, hgs, rfl, rfl⟩ := ih.1 hrest
      exact ⟨g :: gs, List.forall_mem_cons.2 ⟨hg, hgs⟩, rfl, rfl⟩
    · rintro ⟨gs, hgs, hgroups, rfl⟩
      obtain ⟨g, gs, rfl, rfl, rfl⟩ := List.map_eq_cons_iff.1 hgroups.symm
      rw [List.forall_mem_cons] at hgs
      exact ⟨g.keys, _, groupKeys_words hgs.1, ih.2 ⟨gs, hgs.2, rfl, rfl⟩, rfl⟩

/-- The groups of a name are looked at one by one for what they hold, but only together for whether
they hold anything. -/
theorem ordering_eq_ok_iff {groups : List (List String)} {sorts : List SortKey} :
    ordering method groups = .ok sorts ↔ ∃ gs : List SortGroup, (∀ g ∈ gs, g.Readable) ∧
      groups = gs.map SortGroup.words ∧ sorts = gs.flatMap SortGroup.keys ∧
      (gs = [] ∨ ∃ g ∈ gs, g.words ≠ []) := by
  have hempty (gs : List SortGroup) :
      (!(gs.map SortGroup.words).isEmpty && (gs.flatMap SortGroup.keys).isEmpty) = true ↔
        ¬(gs = [] ∨ ∃ g ∈ gs, g.words ≠ []) := by
    rw [Bool.and_eq_true, Bool.not_eq_true', List.isEmpty_map, Bool.eq_false_iff, ne_eq,
      List.isEmpty_iff, List.isEmpty_iff, List.flatMap_eq_nil_iff, not_or]
    simp only [SortGroup.keys_eq_nil_iff, not_exists, not_and, ne_eq, Classical.not_not]
  unfold ordering
  rw [bind_eq_ok]
  constructor
  · rintro ⟨keys, hkeys, h⟩
    obtain ⟨gs, hgs, rfl, rfl⟩ := mapM_groupKeys_eq_ok_iff.1 hkeys
    rw [← List.flatMap_def] at h
    split at h
    · cases h
    · next hsome =>
      cases h
      rw [hempty, Classical.not_not] at hsome
      exact ⟨gs, hgs, rfl, rfl, hsome⟩
  · rintro ⟨gs, hgs, rfl, rfl, hsome⟩
    refine ⟨_, mapM_groupKeys_eq_ok_iff.2 ⟨gs, hgs, rfl, rfl⟩, ?_⟩
    rw [← List.flatMap_def, if_neg]
    rw [hempty]
    exact not_not_intro hsome

end

end EntityStore.MethodName
