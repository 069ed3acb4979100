import EntityStore.Proofs.MethodName.Criteria
import EntityStore.Proofs.MethodName.Ordering

/-!
# The grammar of names

    name     = lead criteria group*
    criteria = clause (("And" | "Or") clause)*
    group    = "Order" "By" key key*
    key      = field ("Asc" | "Desc")?

A clause is any words but the conjunctions, one at least, and of two or more the last is neither
`Between` nor `Like`; a field is any words but the directions, one at least, without an `Order By`.

Parsing accepts the names of this grammar, and others too: it asks for a key in one of the groups,
not in each, so an `Order By` with nothing behind it goes unnoticed beside one that has a key.

    (∃ q, MethodQuery.parse name = .ok q) ↔ InGrammar name ∨ HasEmptyGroup name     (accepted_iff)
-/

namespace EntityStore.MethodName

/-! ## Grammar -/

structure IsClause (ws : List String) : Prop where
  ne_nil : ws ≠ []
  plain : ∀ w ∈ ws, w ≠ "And" ∧ w ≠ "Or"
  allowed : 2 ≤ ws.length → ∀ w ∈ ws.getLast?, w ≠ "Between" ∧ w ≠ "Like"

inductive IsCriteria : List String → Prop
  | clause {ws : List String} (h : IsClause ws) : IsCriteria ws
  | join {ws rest : List String} {w : String} (h : IsClause ws) (hw : w = "And" ∨ w = "Or")
      (hrest : IsCriteria rest) : IsCriteria (ws ++ w :: rest)

/-- The field of a sort key, within a group. -/
structure IsSortField (ws : List String) : Prop where
  ne_nil : ws ≠ []
  plain : ∀ w ∈ ws, w ≠ "Asc" ∧ w ≠ "Desc"

inductive IsSortKey : List String → Prop
  | bare {field : List String} (h : IsSortField field) : IsSortKey field
  | directed {field : List String} {w : String} (h : IsSortField field)
      (hw : w = "Asc" ∨ w = "Desc") : IsSortKey (field ++ [w])

/-- Sort keys one after the other, or none. -/
inductive AreSortKeys : List String → Prop
  | nil : AreSortKeys []
  | cons {key rest : List String} (h : IsSortKey key) (hrest : AreSortKeys rest) :
      AreSortKeys (key ++ rest)

/-- The name is read as a lead, these criteria and these groups, which may be empty. -/
structure Reads (name : String) (criteria : List String) (groups : List (List String)) :
    Prop where
  divides : ∃ lead kind body, (lead, kind) ∈ MethodKind.leads ∧
    name.toList = lead.toList ++ body ∧ words body = criteria ++ groups.flatMap underOrderBy
  orderFree : OrderFree criteria
  groupsFree : ∀ group ∈ groups, OrderFree group
  isCriteria : IsCriteria criteria
  areSortKeys : ∀ group ∈ groups, AreSortKeys group

/-- The name is one of the grammar: every group has a key. -/
def InGrammar (name : String) : Prop :=
  ∃ criteria groups, Reads name criteria groups ∧ ∀ group ∈ groups, group ≠ []

/-- The name has an `Order By` with nothing behind it, beside one that has a key. -/
def HasEmptyGroup (name : String) : Prop :=
  ∃ criteria groups, Reads name criteria groups ∧ [] ∈ groups ∧ ∃ group ∈ groups, group ≠ []

/-! ## Criteria -/

theorem isClause_iff (method : String) {ws : List String} :
    IsClause ws ↔ JoinFree ws ∧ ∃ clause, Clause.parse method ws = .ok clause := by
  rw [Clause.exists_parse_iff]
  simp only [JoinFree, conjunction?_eq_none_iff, Clause.refusedWords, List.mem_cons,
    List.not_mem_nil, or_false, not_or]
  constructor
  · rintro ⟨hne, hplain, hallowed⟩
    exact ⟨hplain, hne, hallowed⟩
  · rintro ⟨hplain, hne, hallowed⟩
    exact ⟨hne, hplain, hallowed⟩

theorem isCriteria_append {clause : List String} {parts : List (Conjunction × List String)}
    (hclause : IsClause clause) (hparts : ∀ part ∈ parts, IsClause part.2) :
    IsCriteria (clause ++ parts.flatMap joined) := by
  induction parts generalizing clause with
  | nil =>
    rw [List.flatMap_nil, List.append_nil]
    exact .clause hclause
  | cons part parts ih =>
    rw [List.forall_mem_cons] at hparts
    refine .join hclause ?_ (ih hparts.1 hparts.2)
    cases part.1 with
    | and => exact .inl rfl
    | or => exact .inr rfl

theorem IsCriteria.exists_append {ws : List String} (h : IsCriteria ws) :
    ∃ (clause : List String) (parts : List (Conjunction × List String)),
      ws = clause ++ parts.flatMap joined ∧ IsClause clause ∧ ∀ part ∈ parts, IsClause part.2 := by
  induction h with
  | clause h =>
    exact ⟨_, [], (List.append_nil _).symm, h, List.forall_mem_nil _⟩
  | join h hw _ ih =>
    obtain ⟨clause, parts, rfl, hclause, hparts⟩ := ih
    rcases hw with rfl | rfl
    · exact ⟨_, (.and, clause) :: parts, rfl, h, List.forall_mem_cons.2 ⟨hclause, hparts⟩⟩
    · exact ⟨_, (.or, clause) :: parts, rfl, h, List.forall_mem_cons.2 ⟨hclause, hparts⟩⟩

theorem exists_parsePart_iff {method : String} {part : Conjunction × List String} :
    (∃ next, parsePart method part = .ok next) ↔
      ∃ clause, Clause.parse method part.2 = .ok clause := by
  simp only [parsePart, map_eq_ok]
  constructor
  · rintro ⟨_, clause, hclause, -⟩
    exact ⟨clause, hclause⟩
  · rintro ⟨clause, hclause⟩
    exact ⟨_, clause, hclause, rfl⟩

theorem exists_criteria_iff (method : String) {ws : List String} :
    (∃ c, criteria method ws = .ok c) ↔ IsCriteria ws := by
  constructor
  · rintro ⟨c, h⟩
    obtain ⟨clause, parts, first, rest, rfl, hclause, hparts, hfirst, hrest, -⟩ :=
      criteria_eq_ok_iff.1 h
    refine isCriteria_append ((isClause_iff method).2 ⟨hclause, first, hfirst⟩) ?_
    intro part hpart
    refine (isClause_iff method).2 ⟨hparts part hpart, ?_⟩
    exact exists_parsePart_iff.1 (exists_mapM_iff.1 ⟨rest, hrest⟩ part hpart)
  · intro h
    obtain ⟨clause, parts, rfl, hclause, hparts⟩ := h.exists_append
    obtain ⟨hfree, first, hfirst⟩ := (isClause_iff method).1 hclause
    have hread : ∀ part ∈ parts, JoinFree part.2 ∧ ∃ next, parsePart method part = .ok next := by
      intro part hpart
      obtain ⟨hpartFree, hnext⟩ := (isClause_iff method).1 (hparts part hpart)
      exact ⟨hpartFree, exists_parsePart_iff.2 hnext⟩
    obtain ⟨rest, hrest⟩ := exists_mapM_iff.2 fun part hpart => (hread part hpart).2
    exact ⟨_, criteria_eq_ok_iff.2 ⟨clause, parts, first, rest, rfl, hfree,
      fun part hpart => (hread part hpart).1, hfirst, hrest, rfl⟩⟩

/-! ## Groups -/

theorem isSortField_iff {ws : List String} : IsSortField ws ↔ ws ≠ [] ∧ DirectionFree ws := by
  simp only [DirectionFree, direction?_eq_none_iff]
  constructor
  · rintro ⟨hne, hplain⟩
    exact ⟨hne, hplain⟩
  · rintro ⟨hne, hplain⟩
    exact ⟨hne, hplain⟩

/-- A key without direction is one with the key after it: the parser cannot tell where the first
ends. -/
theorem AreSortKeys.exists_words {ws : List String} (h : AreSortKeys ws) :
    ∃ g : SortGroup, g.Readable ∧ ws = g.words := by
  induction h with
  | nil =>
    exact ⟨⟨[], []⟩, ⟨List.forall_mem_nil _, List.forall_mem_nil _⟩, rfl⟩
  | cons hkey _ ih =>
    obtain ⟨⟨directed, bare⟩, ⟨hdirected, hbare⟩, rfl⟩ := ih
    cases hkey with
    | @directed field w hfield hw =>
      obtain ⟨d, rfl⟩ : ∃ d : Direction, w = d.name := by
        rcases hw with rfl | rfl
        · exact ⟨.asc, rfl⟩
        · exact ⟨.desc, rfl⟩
      refine ⟨⟨(field, d) :: directed, bare⟩,
        ⟨List.forall_mem_cons.2 ⟨isSortField_iff.1 hfield, hdirected⟩, hbare⟩, ?_⟩
      simp [SortGroup.words]
    | bare hfield =>
      obtain ⟨hne, hfree⟩ := isSortField_iff.1 hfield
      cases directed with
      | nil =>
        refine ⟨⟨[], _ ++ bare⟩, ⟨List.forall_mem_nil _, ?_⟩, rfl⟩
        intro w hw
        exact (List.mem_append.1 hw).elim (hfree w) (hbare w)
      | cons key rest =>
        obtain ⟨⟨-, hkeyFree⟩, hrest⟩ := List.forall_mem_cons.1 hdirected
        refine ⟨⟨(_ ++ key.1, key.2) :: rest, bare⟩,
          ⟨List.forall_mem_cons.2 ⟨⟨List.append_ne_nil_of_left_ne_nil hne _, ?_⟩, hrest⟩, hbare⟩,
          ?_⟩
        · intro w hw
          exact (List.mem_append.1 hw).elim (hfree w) (hkeyFree w)
        · simp [SortGroup.words]

theorem areSortKeys_words {g : SortGroup} (h : g.Readable) : AreSortKeys g.words := by
  obtain ⟨directed, bare⟩ := g
  have hdirected : ∀ key ∈ directed, key.1 ≠ [] ∧ DirectionFree key.1 := h.directed
  have hbare : DirectionFree bare := h.bare
  clear h
  induction directed with
  | nil =>
    by_cases hne : bare = []
    · subst hne
      exact .nil
    · have hkey : IsSortKey bare := .bare (isSortField_iff.2 ⟨hne, hbare⟩)
      have hkeys := AreSortKeys.cons hkey .nil
      rw [List.append_nil] at hkeys
      exact hkeys
  | cons key rest ih =>
    rw [List.forall_mem_cons] at hdirected
    have hdirection : key.2.name = "Asc" ∨ key.2.name = "Desc" := by
      cases key.2 with
      | asc => exact .inl rfl
      | desc => exact .inr rfl
    have hkey := IsSortKey.directed (isSortField_iff.2 hdirected.1) hdirection
    have hkeys := AreSortKeys.cons hkey (ih hdirected.2)
    rw [SortGroup.words, ← List.append_assoc] at hkeys
    exact hkeys

theorem exists_map_words_iff {groups : List (List String)} :
    (∃ gs : List SortGroup, (∀ g ∈ gs, g.Readable) ∧ groups = gs.map SortGroup.words) ↔
      ∀ group ∈ groups, AreSortKeys group := by
  constructor
  · rintro ⟨gs, hgs, rfl⟩ group hgroup
    obtain ⟨g, hg, rfl⟩ := List.mem_map.1 hgroup
    exact areSortKeys_words (hgs g hg)
  · intro h
    induction groups with
    | nil => exact ⟨[], List.forall_mem_nil _, rfl⟩
    | cons group groups ih =>
      rw [List.forall_mem_cons] at h
      obtain ⟨g, hg, rfl⟩ := h.1.exists_words
      obtain ⟨gs, hgs, rfl⟩ := ih h.2
      exact ⟨g :: gs, List.forall_mem_cons.2 ⟨hg, hgs⟩, rfl⟩

theorem exists_ordering_iff (method : String) {groups : List (List String)} :
    (∃ sorts, ordering method groups = .ok sorts) ↔
      (∀ group ∈ groups, AreSortKeys group) ∧ (groups = [] ∨ ∃ group ∈ groups, group ≠ []) := by
  simp only [ordering_eq_ok_iff, ← exists_map_words_iff]
  constructor
  · rintro ⟨sorts, gs, hgs, rfl, -, hsome⟩
    refine ⟨⟨gs, hgs, rfl⟩, ?_⟩
    simp only [List.map_eq_nil_iff, List.mem_map, exists_exists_and_eq_and]
    exact hsome
  · rintro ⟨⟨gs, hgs, rfl⟩, hsome⟩
    simp only [List.map_eq_nil_iff, List.mem_map, exists_exists_and_eq_and] at hsome
    exact ⟨_, gs, hgs, rfl, rfl, hsome⟩

/-! ## Names -/

theorem exists_parse_iff_reads {name : String} :
    (∃ q, MethodQuery.parse name = .ok q) ↔ ∃ criteria groups, Reads name criteria groups ∧
      (groups = [] ∨ ∃ group ∈ groups, group ≠ []) := by
  constructor
  · rintro ⟨q, h⟩
    obtain ⟨lead, body, ws, groups, hlead, hname, hwords, hfree, hgroupsFree, hcondition, hsorts⟩ :=
      MethodQuery.parse_eq_ok_iff.1 h
    obtain ⟨hkeys, hsome⟩ := (exists_ordering_iff name).1 ⟨_, hsorts⟩
    exact ⟨ws, groups, ⟨⟨lead, _, body, hlead, hname, hwords⟩, hfree, hgroupsFree,
      (exists_criteria_iff name).1 ⟨_, hcondition⟩, hkeys⟩, hsome⟩
  · rintro ⟨ws, groups, ⟨⟨lead, kind, body, hlead, hname, hwords⟩, hfree, hgroupsFree, hcriteria,
      hkeys⟩, hsome⟩
    obtain ⟨condition, hcondition⟩ := (exists_criteria_iff name).2 hcriteria
    obtain ⟨sorts, hsorts⟩ := (exists_ordering_iff name).2 ⟨hkeys, hsome⟩
    exact ⟨⟨kind, condition, sorts⟩, MethodQuery.parse_eq_ok_iff.2
      ⟨lead, body, ws, groups, hlead, hname, hwords, hfree, hgroupsFree, hcondition, hsorts⟩⟩

/-- A name is read in one way only. -/
theorem Reads.groups_unique {name : String} {ws ws' : List String}
    {groups groups' : List (List String)} (h : Reads name ws groups)
    (h' : Reads name ws' groups') : groups = groups' := by
  obtain ⟨lead, kind, body, hlead, hname, hwords⟩ := h.divides
  obtain ⟨lead', kind', body', hlead', hname', hwords'⟩ := h'.divides
  have hderived := derived?_eq_some_iff.2 ⟨lead, hlead, hname⟩
  rw [derived?_eq_some_iff.2 ⟨lead', hlead', hname'⟩] at hderived
  cases hderived
  have hsections := sections_eq_iff.2 ⟨hwords, h.orderFree, h.groupsFree⟩
  rw [sections_eq_iff.2 ⟨hwords', h'.orderFree, h'.groupsFree⟩] at hsections
  exact (congrArg Prod.snd hsections).symm

/-- **What is accepted.**  A name parses exactly when it is of the grammar, or has an `Order By`
with nothing behind it beside one that has a key. -/
theorem accepted_iff (name : String) :
    (∃ q, MethodQuery.parse name = .ok q) ↔ InGrammar name ∨ HasEmptyGroup name := by
  rw [exists_parse_iff_reads]
  constructor
  · rintro ⟨ws, groups, hreads, hsome⟩
    by_cases hempty : [] ∈ groups
    · rcases hsome with rfl | hsome
      · exact absurd hempty List.not_mem_nil
      · exact .inr ⟨ws, groups, hreads, hempty, hsome⟩
    · exact .inl ⟨ws, groups, hreads, fun group hgroup hnil => hempty (hnil ▸ hgroup)⟩
  · rintro (⟨ws, groups, hreads, hkeys⟩ | ⟨ws, groups, hreads, -, hsome⟩)
    · refine ⟨ws, groups, hreads, ?_⟩
      cases groups with
      | nil => exact .inl rfl
      | cons group rest =>
        exact .inr ⟨group, List.mem_cons_self, hkeys group List.mem_cons_self⟩
    · exact ⟨ws, groups, hreads, .inr hsome⟩

/-- An `Order By` at the end of a name, after one that has a key. -/
theorem trailing_orderBy_accepted :
    ¬ ∀ name, (∃ q, MethodQuery.parse name = .ok q) ↔ InGrammar name := by
  intro h
  have hparse : ∃ q, MethodQuery.parse "findByTitleOrderByIsbnOrderBy" = .ok q := ⟨_, rfl⟩
  obtain ⟨ws, groups, hreads, hkeys⟩ := (h _).1 hparse
  have hcriteria : IsCriteria ["Title"] := .clause ⟨by decide, by decide, by decide⟩
  have hisbn : AreSortKeys (["Isbn"] ++ []) := .cons (.bare ⟨by decide, by decide⟩) .nil
  have hread : Reads "findByTitleOrderByIsbnOrderBy" ["Title"] [["Isbn"], []] :=
    ⟨⟨"findBy", .derivedFind, "TitleOrderByIsbnOrderBy".toList, by decide, by decide, by decide⟩,
      List.isChain_singleton _,
      List.forall_mem_cons.2
        ⟨List.isChain_singleton _, List.forall_mem_singleton.2 List.isChain_nil⟩, hcriteria,
      List.forall_mem_cons.2 ⟨hisbn, List.forall_mem_singleton.2 .nil⟩⟩
  rw [hreads.groups_unique hread] at hkeys
  exact hkeys [] (by decide) rfl

end EntityStore.MethodName
