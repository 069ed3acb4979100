import EntityStore.Proofs.Condition.Comparisons
import EntityStore.Proofs.MethodName.Division

/-!
# Clauses read back

A clause whose field has no keyword in it is read back as it was written, and any words are read as
some clause unless they are none, or two or more of which the last is refused.  The criteria of a
name are the conditions of its clauses, combined from left to right.

    IsField clause.field → Clause.parse method clause.words = .ok clause        (parse_words)
    Clause.parse method ws = .ok clause → clause.words = ws                     (words_of_parse)
    (∃ clause, Clause.parse method ws = .ok clause) ↔
      ws ≠ [] ∧ (2 ≤ ws.length → ∀ w ∈ ws.getLast?, w ∉ Clause.refusedWords)    (exists_parse_iff)
    criteria method ws = .ok c ↔ ∃ clause parts first rest, … ∧
      c = first.toCondition.combineAll (rest.map conditionOf)                   (criteria_eq_ok_iff)
    criteria method ws = .ok c → c.WellFormed ∧
      ∃ clauses, c.comparisons = clauses.map Clause.comparison               (wellFormed_criteria)
-/

namespace EntityStore.MethodName

/-! ## Fields -/

/-- The words that have a meaning of their own in some place of a name. -/
def keywords : List String :=
  ["And", "Or", "Not", "Less", "Greater", "Than", "Equal", "In", "True", "False", "Between", "Like",
   "Order", "By", "Asc", "Desc"]

/-- Camel case words, one at least, that no place of a name takes for anything else. -/
structure IsField (ws : List String) : Prop where
  ne_nil : ws ≠ []
  camel : ∀ w ∈ ws, IsCamelWord w
  plain : ∀ w ∈ ws, w ∉ keywords

instance (ws : List String) : Decidable (IsField ws) :=
  decidable_of_iff (ws ≠ [] ∧ (∀ w ∈ ws, IsCamelWord w) ∧ ∀ w ∈ ws, w ∉ keywords)
    ⟨fun ⟨hne, hcamel, hplain⟩ => ⟨hne, hcamel, hplain⟩, fun h => ⟨h.ne_nil, h.camel, h.plain⟩⟩

/-! ## Suffixes -/

/-- Behind a word that ends no suffix, the words of a suffix are read as this suffix: of the
suffixes that fit, the longest comes first. -/
theorem Suffix.ofClause_append {w : String} (h : w ∉ ["Equal", "Than", "In", "True", "False"])
    (ws : List String) (suffix : Suffix) :
    Suffix.ofClause (ws ++ [w] ++ suffix.words) = suffix := by
  simp only [List.mem_cons, List.not_mem_nil, or_false, not_or, @eq_comm _ w] at h
  obtain ⟨hequal, hthan, hin, htrue, hfalse⟩ := h
  cases suffix <;>
    simp [ofClause, all, fits, Suffix.words, List.isSuffixOf, List.isPrefixOf, hequal, hthan, hin,
      htrue, hfalse]

/-- What a clause is read as ending in, it ends in. -/
theorem Suffix.words_suffix (ws : List String) : (ofClause ws).words <:+ ws := by
  unfold ofClause
  cases hfound : all.find? (fits ws) with
  | none => exact List.nil_suffix
  | some suffix =>
    have hfits := List.find?_some hfound
    rw [fits, Bool.and_eq_true] at hfits
    exact List.isSuffixOf_iff_suffix.1 hfits.2

theorem Suffix.words_plain (suffix : Suffix) :
    ∀ w ∈ suffix.words, w ∈ keywords ∧ w ∉ Clause.refusedWords ∧ conjunction? w = none ∧
      w ≠ "Order" := by
  cases suffix <;> decide

/-! ## Clauses -/

namespace Clause

/-- A clause without its suffix. -/
def stem (clause : Clause) : List String :=
  clause.field ++ if clause.negated then ["Not"] else []

theorem words_eq (clause : Clause) : clause.words = clause.stem ++ clause.suffix.words := rfl

/-- The last word of a stem is the negation or belongs to the field. -/
theorem exists_stem_eq {clause : Clause} (h : clause.field ≠ []) :
    ∃ ws w, clause.stem = ws ++ [w] ∧ (w = "Not" ∧ clause.negated = true ∨
      w ∈ clause.field ∧ clause.negated = false) := by
  unfold stem
  cases clause.negated with
  | true => exact ⟨clause.field, "Not", rfl, .inl ⟨rfl, rfl⟩⟩
  | false =>
    refine ⟨clause.field.dropLast, clause.field.getLast h, ?_, .inr ⟨List.getLast_mem h, rfl⟩⟩
    rw [List.dropLast_append_getLast]
    exact List.append_nil _

theorem mem_stem {clause : Clause} {w : String} (h : w ∈ clause.stem) :
    w ∈ clause.field ∨ w = "Not" := by
  unfold stem at h
  rcases List.mem_append.1 h with h | h
  · exact .inl h
  · split at h
    · exact .inr (List.mem_singleton.1 h)
    · cases h

section
variable {method : String}

/-- What is left of a clause without its suffix ends in the negation or goes without. -/
theorem parse_stem {clause : Clause} (hne : clause.field ≠ []) (h : "Not" ∉ clause.field) :
    (if 1 < clause.stem.length ∧ clause.stem.getLast? = some "Not" then
      .ok ⟨clause.stem.dropLast, true, clause.suffix⟩
    else .ok ⟨clause.stem, false, clause.suffix⟩ : Except Failure Clause) = .ok clause := by
  obtain ⟨field, negated, suffix⟩ := clause
  unfold stem
  cases negated with
  | true =>
    have hlong : 1 < (field ++ ["Not"]).length := by
      have hpos : 0 < field.length := List.length_pos_of_ne_nil hne
      rw [List.length_append, List.length_singleton]
      omega
    have hlast : (field ++ ["Not"]).getLast? = some "Not" := List.getLast?_concat
    rw [if_pos rfl, if_pos ⟨hlong, hlast⟩, List.dropLast_concat]
  | false =>
    rw [if_neg Bool.false_ne_true, List.append_nil, if_neg]
    rintro ⟨-, hlast⟩
    exact h (List.mem_of_getLast? hlast)

theorem parse_words {clause : Clause} (h : IsField clause.field) :
    Clause.parse method clause.words = .ok clause := by
  obtain ⟨ws, w, hstem, hw⟩ := exists_stem_eq h.ne_nil
  have hplain : w ∉ ["Equal", "Than", "In", "True", "False"] ∧ w ∉ refusedWords := by
    rcases hw with ⟨rfl, -⟩ | ⟨hw, -⟩
    · decide
    · have hkeywords := h.plain w hw
      simp only [keywords, List.mem_cons, not_or] at hkeywords
      simp [refusedWords, hkeywords]
  have hsuffix : Suffix.ofClause clause.words = clause.suffix := by
    rw [words_eq, hstem]
    exact Suffix.ofClause_append hplain.1 ws clause.suffix
  have hlast : ∃ last, clause.words.getLast? = some last ∧ last ∉ refusedWords := by
    rw [words_eq, hstem, List.getLast?_append, List.getLast?_concat]
    cases hend : clause.suffix.words.getLast? with
    | none => exact ⟨w, rfl, hplain.2⟩
    | some last =>
      exact ⟨last, rfl, (clause.suffix.words_plain last (List.mem_of_getLast? hend)).2.1⟩
  obtain ⟨last, hlast, hallowed⟩ := hlast
  have hrest : clause.words.take (clause.words.length - clause.suffix.words.length)
      = clause.stem := by
    rw [words_eq, List.length_append, Nat.add_sub_cancel, List.take_left]
  unfold Clause.parse
  rw [hlast]
  dsimp only
  rw [if_neg fun hrefused => hallowed hrefused.2, hsuffix, hrest]
  exact parse_stem h.ne_nil fun hnot => h.plain _ hnot (by decide)

/-- No word of a clause is lost. -/
theorem words_of_parse {ws : List String} {clause : Clause}
    (h : Clause.parse method ws = .ok clause) : clause.words = ws := by
  obtain ⟨stem, hstem⟩ := Suffix.words_suffix ws
  have hrest : ws.take (ws.length - (Suffix.ofClause ws).words.length) = stem := by
    have hlength := congrArg List.length hstem
    rw [List.length_append] at hlength
    rw [← hlength, Nat.add_sub_cancel]
    exact (congrArg (List.take stem.length) hstem).symm.trans List.take_left
  unfold Clause.parse at h
  split at h
  · cases h
  · dsimp only at h
    rw [hrest] at h
    split at h
    · cases h
    · split at h
      · next hnot =>
        cases h
        obtain ⟨field, rfl⟩ := List.getLast?_eq_some_iff.1 hnot.2
        rw [Clause.words, List.dropLast_concat]
        exact hstem
      · cases h
        rw [Clause.words, if_neg Bool.false_ne_true, List.append_nil]
        exact hstem

theorem exists_parse_iff {ws : List String} :
    (∃ clause, Clause.parse method ws = .ok clause) ↔
      ws ≠ [] ∧ (2 ≤ ws.length → ∀ w ∈ ws.getLast?, w ∉ refusedWords) := by
  unfold Clause.parse
  cases hlast : ws.getLast? with
  | none =>
    rw [List.getLast?_eq_none_iff] at hlast
    simp [hlast]
  | some last =>
    have hne : ws ≠ [] := List.ne_nil_of_mem (List.mem_of_getLast? hlast)
    dsimp only
    by_cases hrefused : 1 < ws.length ∧ last ∈ refusedWords
    · rw [if_pos hrefused]
      constructor
      · rintro ⟨clause, h⟩
        cases h
      · rintro ⟨-, h⟩
        exact absurd hrefused.2 (h hrefused.1 last rfl)
    · rw [if_neg hrefused]
      refine iff_of_true ?_ ⟨hne, ?_⟩
      · split
        · exact ⟨_, rfl⟩
        · exact ⟨_, rfl⟩
      · rintro hlong w hw
        cases hw
        exact fun hmem => hrefused ⟨hlong, hmem⟩

end

theorem mem_words {clause : Clause} {w : String} (h : w ∈ clause.words) :
    w ∈ clause.field ∨ w ∈ keywords ∧ conjunction? w = none ∧ w ≠ "Order" := by
  rw [words_eq] at h
  rcases List.mem_append.1 h with h | h
  · rcases mem_stem h with h | rfl
    · exact .inl h
    · exact .inr (by decide)
  · obtain ⟨hkeyword, -, hjoin, horder⟩ := clause.suffix.words_plain w h
    exact .inr ⟨hkeyword, hjoin, horder⟩

end Clause

/-! ## Criteria -/

section
variable {method : String}

/-- A further clause and what joins it, read. -/
def parsePart (method : String) (part : Conjunction × List String) :
    Except Failure (Conjunction × Clause) :=
  (Clause.parse method part.2).map fun clause => (part.1, clause)

theorem mapM_parsePart_words {rest : List (Conjunction × Clause)}
    (h : ∀ part ∈ rest, IsField part.2.field) :
    (rest.map fun part => (part.1, part.2.words)).mapM (parsePart method) = .ok rest := by
  induction rest with
  | nil => rfl
  | cons part rest ih =>
    rw [List.forall_mem_cons] at h
    rw [List.map_cons, mapM_cons_eq_ok]
    refine ⟨part, rest, ?_, ih h.2, rfl⟩
    exact map_eq_ok.2 ⟨part.2, Clause.parse_words h.1, rfl⟩

/-- Further clauses that are read stand for the words that they were read from. -/
theorem eq_map_of_mapM_parsePart {parts : List (Conjunction × List String)}
    {rest : List (Conjunction × Clause)} (h : parts.mapM (parsePart method) = .ok rest) :
    parts = rest.map (fun part => (part.1, part.2.words)) ∧
      ∀ part ∈ rest, Clause.parse method part.2.words = .ok part.2 := by
  induction parts generalizing rest with
  | nil =>
    cases h
    exact ⟨rfl, List.forall_mem_nil _⟩
  | cons part parts ih =>
    obtain ⟨read, rest, hread, hrest, rfl⟩ := mapM_cons_eq_ok.1 h
    obtain ⟨clause, hclause, rfl⟩ := map_eq_ok.1 hread
    obtain ⟨rfl, hall⟩ := ih hrest
    have hwords := Clause.words_of_parse hclause
    rw [List.map_cons, List.forall_mem_cons, hwords]
    exact ⟨rfl, hclause, hall⟩

/-- A further condition and what joins it. -/
def conditionOf (part : Conjunction × Clause) : Conjunction × Condition :=
  (part.1, part.2.toCondition)

/-- Clauses are read and combined in one go; they might as well be read first. -/
theorem joinClauses_eq (c : Condition) (parts : List (Conjunction × List String)) :
    joinClauses method c parts =
      (parts.mapM (parsePart method)).map fun rest => c.combineAll (rest.map conditionOf) := by
  induction parts generalizing c with
  | nil => rfl
  | cons part parts ih =>
    obtain ⟨k, ws⟩ := part
    rw [joinClauses, List.mapM_cons, parsePart]
    cases Clause.parse method ws with
    | error failure => rfl
    | ok clause =>
      show joinClauses method (c.combine k clause.toCondition) parts = _
      rw [ih]
      cases parts.mapM (parsePart method) with
      | error failure => rfl
      | ok rest => rfl

/-- The condition of a name is that of its first clause with those of the others combined. -/
theorem criteria_eq_ok_iff {ws : List String} {c : Condition} :
    criteria method ws = .ok c ↔ ∃ (clause : List String) (parts : List (Conjunction × List String))
      (first : Clause) (rest : List (Conjunction × Clause)),
      ws = clause ++ parts.flatMap joined ∧ JoinFree clause ∧ (∀ part ∈ parts, JoinFree part.2) ∧
      Clause.parse method clause = .ok first ∧ parts.mapM (parsePart method) = .ok rest ∧
      c = first.toCondition.combineAll (rest.map conditionOf) := by
  unfold criteria
  constructor
  · intro h
    obtain ⟨first, hfirst, h⟩ := bind_eq_ok.1 h
    rw [joinClauses_eq] at h
    obtain ⟨rest, hrest, rfl⟩ := map_eq_ok.1 h
    obtain ⟨hws, hclause, hparts⟩ := splitClauses_divide ws
    exact ⟨_, _, first, rest, hws, hclause, hparts, hfirst, hrest, rfl⟩
  · rintro ⟨clause, parts, first, rest, hws, hclause, hparts, hfirst, hrest, rfl⟩
    rw [splitClauses_eq_iff.2 ⟨hws, hclause, hparts⟩]
    refine bind_eq_ok.2 ⟨first, hfirst, ?_⟩
    rw [joinClauses_eq]
    exact map_eq_ok.2 ⟨rest, hrest, rfl⟩

/-! ## Comparisons -/

/-- What a clause compares, negated or not. -/
def Clause.comparison (clause : Clause) : Comparison :=
  ⟨fieldName clause.field, clause.suffix.operator, clause.suffix.operand⟩

theorem Clause.comparisons_toCondition (clause : Clause) :
    clause.toCondition.comparisons = [clause.comparison] := by
  unfold toCondition
  cases clause.negated <;> rfl

theorem Clause.wellFormed_toCondition (clause : Clause) : clause.toCondition.WellFormed := by
  unfold toCondition
  cases clause.negated <;> trivial

/-- The condition of a name compares what its clauses compare, in their order, and joins nothing
empty. -/
theorem wellFormed_criteria {ws : List String} {c : Condition} (h : criteria method ws = .ok c) :
    c.WellFormed ∧ ∃ clauses : List Clause, c.comparisons = clauses.map Clause.comparison := by
  obtain ⟨_, _, first, rest, -, -, -, -, -, rfl⟩ := criteria_eq_ok_iff.1 h
  refine ⟨first.wellFormed_toCondition.combineAll ?_, first :: rest.map (·.2), ?_⟩
  · exact List.forall_mem_map.2 fun part _ => part.2.wellFormed_toCondition
  · rw [Condition.comparisons_combineAll, Clause.comparisons_toCondition, List.flatMap_map]
    simp only [conditionOf, Clause.comparisons_toCondition]
    rw [← List.map_eq_flatMap, List.map_cons, List.map_map]
    rfl

/-- A value that a clause brings itself is one of the two truth values. -/
theorem Clause.literal_of_comparison {clause : Clause} {v : Value}
    (h : clause.comparison.operand = .literal v) :
    clause.comparison.operator = .eq ∧ ∃ b, v = .boolean b := by
  obtain ⟨field, negated, suffix⟩ := clause
  cases suffix with
  | isTrue => exact ⟨rfl, true, (Operand.literal.inj h).symm⟩
  | isFalse => exact ⟨rfl, false, (Operand.literal.inj h).symm⟩
  | _ => cases h

end

end EntityStore.MethodName
