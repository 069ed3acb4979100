import EntityStore.MethodName.Query
import EntityStore.Proofs.Outcome
import Mathlib.Data.List.Chain

/-!
# How a name divides

A derived name divides in one way only: into a lead and words, the words at each `Order By` into
criteria and groups, and the criteria at each `And` and `Or` into clauses.

    (∀ w ∈ ws, IsCamelWord w) → words (ws.flatMap String.toList) = ws            (words_flatMap)
    (words name).flatMap String.toList = name                              (flatMap_toList_words)
    MethodKind.derived? cs = some (kind, body) ↔
      ∃ lead, (lead, kind) ∈ MethodKind.leads ∧ cs = lead.toList ++ body  (derived?_eq_some_iff)
    sections ws = (criteria, groups) ↔ ws = criteria ++ groups.flatMap underOrderBy ∧
      OrderFree criteria ∧ ∀ group ∈ groups, OrderFree group                   (sections_eq_iff)
    splitClauses ws = (clause, rest) ↔ ws = clause ++ rest.flatMap joined ∧
      JoinFree clause ∧ ∀ part ∈ rest, JoinFree part.2                         (splitClauses_eq_iff)
-/

namespace EntityStore

namespace MethodName

/-! ## Words -/

/-- A word starts with a capital of the ASCII alphabet and has no other. -/
def IsCamelWord (w : String) : Prop :=
  w.toList.head?.any Char.isUpper = true ∧ ∀ c ∈ w.toList.tail, c.isUpper = false

-- There are finitely many characters, and going through all of them must not be what decides.
instance (w : String) : Decidable (IsCamelWord w) :=
  @instDecidableAnd _ _ (inferInstanceAs (Decidable (_ = true))) (List.decidableBAll _ _)

theorem IsCamelWord.exists_cons {w : String} (h : IsCamelWord w) :
    ∃ c cs, w.toList = c :: cs ∧ c.isUpper = true ∧ ∀ d ∈ cs, d.isUpper = false := by
  obtain ⟨hhead, htail⟩ := h
  cases hw : w.toList with
  | nil => rw [hw] at hhead; cases hhead
  | cons c cs =>
    rw [hw] at hhead htail
    exact ⟨c, cs, rfl, hhead, htail⟩

/-- Whatever stands first begins a word, and so does each capital behind it. -/
theorem exists_camelWords_cons (c : Char) (cs : List Char) :
    ∃ run rest, camelWords (c :: cs) = (c :: run) :: rest ∧ (∀ d ∈ run, d.isUpper = false) ∧
      ∀ w ∈ rest, IsCamelWord (String.ofList w) := by
  induction cs generalizing c with
  | nil => exact ⟨[], [], rfl, List.forall_mem_nil _, List.forall_mem_nil _⟩
  | cons d cs ih =>
    obtain ⟨run, rest, hwords, hrun, hrest⟩ := ih d
    rw [camelWords, hwords]
    cases hd : d.isUpper with
    | false =>
      refine ⟨d :: run, rest, ?_, List.forall_mem_cons.2 ⟨hd, hrun⟩, hrest⟩
      simp [hd]
    | true =>
      have hword : IsCamelWord (String.ofList (d :: run)) := by
        rw [IsCamelWord, String.toList_ofList]
        exact ⟨hd, hrun⟩
      refine ⟨[], (d :: run) :: rest, ?_, List.forall_mem_nil _,
        List.forall_mem_cons.2 ⟨hword, hrest⟩⟩
      simp [hd]

/-- From a capital on, a name falls into camel case words. -/
theorem isCamelWord_of_isUpper {c : Char} (h : c.isUpper = true) (cs : List Char) :
    ∀ w ∈ words (c :: cs), IsCamelWord w := by
  obtain ⟨run, rest, hwords, hrun, hrest⟩ := exists_camelWords_cons c cs
  have hword : IsCamelWord (String.ofList (c :: run)) := by
    rw [IsCamelWord, String.toList_ofList]
    exact ⟨h, hrun⟩
  rw [words, hwords, List.map_cons, List.forall_mem_cons, List.forall_mem_map]
  exact ⟨hword, hrest⟩

/-- The words of a name, written one after the other, are the name. -/
theorem flatMap_toList_words (name : List Char) : (words name).flatMap String.toList = name := by
  rw [words, List.flatMap_map]
  simp only [String.toList_ofList]
  rw [List.flatMap_id', flatten_camelWords]

/-- Before a capital, a run without capitals ends a word. -/
theorem camelWords_append {cs rest : List Char} (hcs : ∀ d ∈ cs, d.isUpper = false)
    (hrest : ∀ d ∈ rest.head?, d.isUpper = true) (c : Char) :
    camelWords (c :: (cs ++ rest)) = (c :: cs) :: camelWords rest := by
  induction cs generalizing c with
  | nil =>
    cases rest with
    | nil => rfl
    | cons d rest =>
      have hd : d.isUpper = true := hrest d rfl
      obtain ⟨w, ws, hws, -⟩ := exists_camelWords_cons d rest
      rw [List.nil_append, camelWords, hws]
      simp [hd]
  | cons d cs ih =>
    rw [List.forall_mem_cons] at hcs
    rw [List.cons_append, camelWords, ih hcs.2 d]
    simp [hcs.1]

/-- Words that are written one after the other are read back. -/
theorem words_flatMap {ws : List String} (h : ∀ w ∈ ws, IsCamelWord w) :
    words (ws.flatMap String.toList) = ws := by
  induction ws with
  | nil => rfl
  | cons w ws ih =>
    obtain ⟨hcamel, hws⟩ := List.forall_mem_cons.1 h
    obtain ⟨c, cs, hw, -, hcs⟩ := hcamel.exists_cons
    have hnext : ∀ d ∈ (ws.flatMap String.toList).head?, d.isUpper = true := by
      intro d hd
      cases ws with
      | nil => cases hd
      | cons v vs =>
        obtain ⟨d', ds, hv, hd', -⟩ := (hws v List.mem_cons_self).exists_cons
        rw [List.flatMap_cons, hv] at hd
        cases hd
        exact hd'
    have hrest := ih hws
    rw [words] at hrest ⊢
    rw [List.flatMap_cons, hw, List.cons_append, camelWords_append hcs hnext c, List.map_cons,
      hrest, ← hw, String.ofList_toList]

/-! ## Leads -/

/-- No lead starts another, so a name has one lead at most. -/
theorem derived?_eq_some_iff {cs body : List Char} {kind : MethodKind} :
    MethodKind.derived? cs = some (kind, body) ↔
      ∃ lead, (lead, kind) ∈ MethodKind.leads ∧ cs = lead.toList ++ body := by
  constructor
  · intro h
    obtain ⟨⟨lead, kind'⟩, hmem, h⟩ := List.exists_of_findSome?_eq_some h
    dsimp only at h
    split at h
    · next hlead =>
      obtain ⟨rest, rfl⟩ := List.isPrefixOf_iff_prefix.1 hlead
      rw [← String.length_toList, List.drop_left] at h
      cases h
      exact ⟨lead, hmem, rfl⟩
    · cases h
  · rintro ⟨lead, hmem, rfl⟩
    simp only [MethodKind.leads, List.mem_cons, Prod.mk.injEq, List.not_mem_nil, or_false] at hmem
    rcases hmem with ⟨rfl, rfl⟩ | ⟨rfl, rfl⟩ | ⟨rfl, rfl⟩ | ⟨rfl, rfl⟩
    · rfl
    · rfl
    · rfl
    · rfl

/-! ## Sections -/

/-- No `Order` is followed by `By`. -/
def OrderFree (ws : List String) : Prop := ws.IsChain fun w v => ¬(w = "Order" ∧ v = "By")

/-- A group as it stands in a name. -/
def underOrderBy (group : List String) : List String := "Order" :: "By" :: group

theorem orderFree_cons {w : String} {ws : List String} :
    OrderFree (w :: ws) ↔ ¬(w = "Order" ∧ ws.head? = some "By") ∧ OrderFree ws := by
  unfold OrderFree
  rw [List.isChain_cons]
  refine and_congr_left fun _ => ?_
  cases ws with
  | nil => simp
  | cons v vs => simp

theorem sections_orderBy (ws : List String) :
    sections (underOrderBy ws) = ([], (sections ws).1 :: (sections ws).2) := rfl

theorem sections_cons {w : String} {ws : List String}
    (h : ¬(w = "Order" ∧ ws.head? = some "By")) :
    sections (w :: ws) = (w :: (sections ws).1, (sections ws).2) := by
  cases ws with
  | nil => rfl
  | cons v vs =>
    rw [List.head?_cons, Option.some.injEq] at h
    rw [sections, if_neg h]

theorem head?_flatMap_underOrderBy (groups : List (List String)) :
    (groups.flatMap underOrderBy).head? ≠ some "By" := by
  cases groups with
  | nil => intro h; cases h
  | cons group groups => simp [underOrderBy]

theorem sections_append {ws rest : List String} (h : OrderFree ws)
    (hrest : rest.head? ≠ some "By") :
    sections (ws ++ rest) = (ws ++ (sections rest).1, (sections rest).2) := by
  induction ws with
  | nil => rfl
  | cons w ws ih =>
    obtain ⟨hw, hws⟩ := orderFree_cons.1 h
    have hnext : ¬(w = "Order" ∧ (ws ++ rest).head? = some "By") := by
      rintro ⟨horder, hby⟩
      cases ws with
      | nil => exact hrest hby
      | cons v vs => exact hw ⟨horder, hby⟩
    rw [List.cons_append, sections_cons hnext, ih hws, List.cons_append]

theorem sections_flatMap {groups : List (List String)} (h : ∀ group ∈ groups, OrderFree group) :
    sections (groups.flatMap underOrderBy) = ([], groups) := by
  induction groups with
  | nil => rfl
  | cons group groups ih =>
    rw [List.forall_mem_cons] at h
    have hgroup := sections_append h.1 (head?_flatMap_underOrderBy groups)
    rw [ih h.2, List.append_nil] at hgroup
    show sections (underOrderBy (group ++ groups.flatMap underOrderBy)) = _
    rw [sections_orderBy, hgroup]

theorem sections_divide (ws : List String) :
    ws = (sections ws).1 ++ (sections ws).2.flatMap underOrderBy ∧ OrderFree (sections ws).1 ∧
      ∀ group ∈ (sections ws).2, OrderFree group := by
  induction ws using sections.induct with
  | case1 => exact ⟨rfl, List.isChain_nil, List.forall_mem_nil _⟩
  | case2 w => exact ⟨rfl, List.isChain_singleton w, List.forall_mem_nil _⟩
  | case3 w v ws hpair group groups hsections ih =>
    obtain ⟨rfl, rfl⟩ := hpair
    rw [← underOrderBy, sections_orderBy]
    refine ⟨?_, List.isChain_nil, List.forall_mem_cons.2 ih.2⟩
    show underOrderBy ws = underOrderBy ((sections ws).1 ++ (sections ws).2.flatMap underOrderBy)
    rw [← ih.1]
  | case4 w v ws hpair group groups hsections ih =>
    obtain ⟨hws, hfree, hgroups⟩ := ih
    have hhead : ¬(w = "Order" ∧ (v :: ws).head? = some "By") := by
      rw [List.head?_cons, Option.some.injEq]
      exact hpair
    rw [sections_cons hhead]
    refine ⟨by rw [List.cons_append, ← hws], orderFree_cons.2 ⟨?_, hfree⟩, hgroups⟩
    rintro ⟨horder, hby⟩
    refine hhead ⟨horder, ?_⟩
    rw [hws]
    cases hfirst : (sections (v :: ws)).1 with
    | nil => rw [hfirst] at hby; cases hby
    | cons u us => rw [hfirst] at hby; exact hby

/-- Words divide at every `Order By`, and in no other way. -/
theorem sections_eq_iff {ws criteria : List String} {groups : List (List String)} :
    sections ws = (criteria, groups) ↔ ws = criteria ++ groups.flatMap underOrderBy ∧
      OrderFree criteria ∧ ∀ group ∈ groups, OrderFree group := by
  constructor
  · intro h
    have hdivide := sections_divide ws
    rw [h] at hdivide
    exact hdivide
  · rintro ⟨rfl, hcriteria, hgroups⟩
    rw [sections_append hcriteria (head?_flatMap_underOrderBy groups), sections_flatMap hgroups,
      List.append_nil]

/-! ## Clauses -/

/-- The word that joins two clauses. -/
def conjunctionWord : Conjunction → String
  | .and => "And"
  | .or => "Or"

/-- A further clause as it stands in a name. -/
def joined (part : Conjunction × List String) : List String := conjunctionWord part.1 :: part.2

/-- No word joins clauses. -/
def JoinFree (ws : List String) : Prop := ∀ w ∈ ws, conjunction? w = none

theorem conjunction?_eq_some_iff {w : String} {k : Conjunction} :
    conjunction? w = some k ↔ w = conjunctionWord k := by
  unfold conjunction?
  constructor
  · intro h
    split at h
    · next hand => cases h; exact hand
    · split at h
      · next hor => cases h; exact hor
      · cases h
  · rintro rfl
    cases k with
    | and => rfl
    | or => rfl

theorem conjunction?_eq_none_iff {w : String} : conjunction? w = none ↔ w ≠ "And" ∧ w ≠ "Or" := by
  unfold conjunction?
  constructor
  · intro h
    split at h
    · cases h
    · next hand =>
      split at h
      · cases h
      · next hor => exact ⟨hand, hor⟩
  · rintro ⟨hand, hor⟩
    rw [if_neg hand, if_neg hor]

theorem splitClauses_cons {w : String} (h : conjunction? w = none) (ws : List String) :
    splitClauses (w :: ws) = (w :: (splitClauses ws).1, (splitClauses ws).2) := by
  rw [splitClauses, h]

theorem splitClauses_joined (k : Conjunction) (ws : List String) :
    splitClauses (joined (k, ws)) = ([], (k, (splitClauses ws).1) :: (splitClauses ws).2) := by
  rw [joined, splitClauses, conjunction?_eq_some_iff.2 rfl]

theorem splitClauses_append {ws : List String} (h : JoinFree ws) (rest : List String) :
    splitClauses (ws ++ rest) = (ws ++ (splitClauses rest).1, (splitClauses rest).2) := by
  induction ws with
  | nil => rfl
  | cons w ws ih =>
    obtain ⟨hw, hws⟩ := List.forall_mem_cons.1 h
    rw [List.cons_append, splitClauses_cons hw, ih hws, List.cons_append]

theorem splitClauses_flatMap {rest : List (Conjunction × List String)}
    (h : ∀ part ∈ rest, JoinFree part.2) : splitClauses (rest.flatMap joined) = ([], rest) := by
  induction rest with
  | nil => rfl
  | cons part rest ih =>
    rw [List.forall_mem_cons] at h
    have hpart := splitClauses_append h.1 (rest.flatMap joined)
    rw [ih h.2, List.append_nil] at hpart
    show splitClauses (joined (part.1, part.2 ++ rest.flatMap joined)) = _
    rw [splitClauses_joined, hpart]

theorem splitClauses_divide (ws : List String) :
    ws = (splitClauses ws).1 ++ (splitClauses ws).2.flatMap joined ∧
      JoinFree (splitClauses ws).1 ∧ ∀ part ∈ (splitClauses ws).2, JoinFree part.2 := by
  induction ws with
  | nil => exact ⟨rfl, List.forall_mem_nil _, List.forall_mem_nil _⟩
  | cons w ws ih =>
    obtain ⟨hws, hfree, hparts⟩ := ih
    cases hw : conjunction? w with
    | none =>
      rw [splitClauses_cons hw]
      exact ⟨by rw [List.cons_append, ← hws], List.forall_mem_cons.2 ⟨hw, hfree⟩, hparts⟩
    | some k =>
      rw [conjunction?_eq_some_iff] at hw
      subst hw
      rw [← joined.eq_1 (k, ws), splitClauses_joined]
      refine ⟨?_, List.forall_mem_nil _, List.forall_mem_cons.2 ⟨hfree, hparts⟩⟩
      show joined (k, ws) = joined (k, (splitClauses ws).1 ++ (splitClauses ws).2.flatMap joined)
      rw [← hws]

/-- Criteria divide at every `And` and `Or`, and in no other way. -/
theorem splitClauses_eq_iff {ws clause : List String} {rest : List (Conjunction × List String)} :
    splitClauses ws = (clause, rest) ↔ ws = clause ++ rest.flatMap joined ∧
      JoinFree clause ∧ ∀ part ∈ rest, JoinFree part.2 := by
  constructor
  · intro h
    have hdivide := splitClauses_divide ws
    rw [h] at hdivide
    exact hdivide
  · rintro ⟨rfl, hclause, hrest⟩
    rw [splitClauses_append hclause, splitClauses_flatMap hrest, List.append_nil]

end MethodName

/-! ## Names -/

open MethodName in
/-- A parse taken apart into those of its parts. -/
theorem MethodQuery.parse_eq_ok_iff {name : String} {q : MethodQuery} :
    MethodQuery.parse name = .ok q ↔
      ∃ lead body criteriaWords groups, (lead, q.kind) ∈ MethodKind.leads ∧
        name.toList = lead.toList ++ body ∧
        words body = criteriaWords ++ groups.flatMap underOrderBy ∧ OrderFree criteriaWords ∧
        (∀ group ∈ groups, OrderFree group) ∧
        criteria name criteriaWords = .ok q.condition ∧ ordering name groups = .ok q.sorts := by
  unfold MethodQuery.parse
  constructor
  · intro h
    split at h
    · cases h
    · next kind body hbody =>
      obtain ⟨lead, hlead, hname⟩ := derived?_eq_some_iff.1 hbody
      obtain ⟨condition, hcondition, h⟩ := bind_eq_ok.1 h
      obtain ⟨sorts, hsorts, h⟩ := bind_eq_ok.1 h
      cases h
      obtain ⟨hwords, hcriteria, hgroups⟩ := sections_divide (words body)
      exact ⟨lead, body, _, _, hlead, hname, hwords, hcriteria, hgroups, hcondition, hsorts⟩
  · rintro ⟨lead, body, criteriaWords, groups, hlead, hname, hwords, hcriteria, hgroups,
      hcondition, hsorts⟩
    rw [derived?_eq_some_iff.2 ⟨lead, hlead, hname⟩]
    dsimp only
    rw [sections_eq_iff.2 ⟨hwords, hcriteria, hgroups⟩]
    exact bind_eq_ok.2 ⟨_, hcondition, bind_eq_ok.2 ⟨_, hsorts, rfl⟩⟩

end EntityStore
