import EntityStore.Proofs.MethodName.Criteria
import EntityStore.Proofs.MethodName.Ordering

/-!
# The lead of a name

The lead decides the kind of a method and nothing else: with another lead the rest of a name asks
for the same condition and the same sort keys.  The whole name is only told in failures.

    (lead, kind), (lead', kind') ∈ MethodKind.leads →
      MethodQuery.parse (lead ++ body) = .ok q →
      q.kind = kind ∧
        MethodQuery.parse (lead' ++ body) = .ok { q with kind := kind' }        (parse_lead)
-/

namespace EntityStore

namespace MethodName

variable {method method' : String}

theorem Clause.parse_rename {ws : List String} {clause : Clause}
    (h : Clause.parse method ws = .ok clause) : Clause.parse method' ws = .ok clause := by
  unfold Clause.parse at h ⊢
  split at h
  · cases h
  · next last hlast =>
    dsimp only
    split at h
    · cases h
    · next hallowed =>
      rw [if_neg hallowed]
      exact h

theorem mapM_parsePart_rename {parts : List (Conjunction × List String)}
    {rest : List (Conjunction × Clause)} (h : parts.mapM (parsePart method) = .ok rest) :
    parts.mapM (parsePart method') = .ok rest := by
  induction parts generalizing rest with
  | nil => exact h
  | cons part parts ih =>
    obtain ⟨read, rest', hread, hrest', rfl⟩ := mapM_cons_eq_ok.1 h
    obtain ⟨clause, hclause, rfl⟩ := map_eq_ok.1 hread
    refine mapM_cons_eq_ok.2 ⟨_, _, ?_, ih hrest', rfl⟩
    exact map_eq_ok.2 ⟨clause, Clause.parse_rename hclause, rfl⟩

theorem criteria_rename {ws : List String} {c : Condition} (h : criteria method ws = .ok c) :
    criteria method' ws = .ok c := by
  obtain ⟨clause, parts, first, rest, hws, hclause, hparts, hfirst, hrest, rfl⟩ :=
    criteria_eq_ok_iff.1 h
  exact criteria_eq_ok_iff.2 ⟨clause, parts, first, rest, hws, hclause, hparts,
    Clause.parse_rename hfirst, mapM_parsePart_rename hrest, rfl⟩

theorem ordering_rename {groups : List (List String)} {sorts : List SortKey}
    (h : ordering method groups = .ok sorts) : ordering method' groups = .ok sorts :=
  ordering_eq_ok_iff.2 (ordering_eq_ok_iff.1 h)

theorem derived?_append {lead : String} {kind : MethodKind}
    (hlead : (lead, kind) ∈ MethodKind.leads) (body : String) :
    MethodKind.derived? (lead ++ body).toList = some (kind, body.toList) :=
  derived?_eq_some_iff.2 ⟨lead, hlead, String.toList_append⟩

end MethodName

namespace MethodKind

variable {lead body : String} {kind : MethodKind}

/-- A name with a lead is of the kind of the lead. -/
theorem classify_append (hlead : (lead, kind) ∈ leads) : classify (lead ++ body) false = kind := by
  have hderived := MethodName.derived?_append hlead body
  have hname : lead ++ body ≠ "findAll" := by
    intro hname
    rw [hname] at hderived
    cases hderived
  rw [classify, if_neg Bool.false_ne_true, if_neg hname, hderived]

theorem ne_findAll_of_mem_leads (hlead : (lead, kind) ∈ leads) : kind ≠ .findAll := by
  rintro rfl
  simp [leads] at hlead

end MethodKind

open MethodName in
theorem MethodQuery.parse_lead {lead lead' body : String} {kind kind' : MethodKind}
    {q : MethodQuery} (hlead : (lead, kind) ∈ MethodKind.leads)
    (hlead' : (lead', kind') ∈ MethodKind.leads) (h : MethodQuery.parse (lead ++ body) = .ok q) :
    q.kind = kind ∧
      MethodQuery.parse (lead' ++ body) = .ok { q with kind := kind' } := by
  unfold MethodQuery.parse at h ⊢
  rw [derived?_append hlead] at h
  rw [derived?_append hlead']
  obtain ⟨condition, hcondition, h⟩ := bind_eq_ok.1 h
  obtain ⟨sorts, hsorts, h⟩ := bind_eq_ok.1 h
  cases h
  refine ⟨rfl, bind_eq_ok.2 ⟨condition, criteria_rename hcondition, ?_⟩⟩
  exact bind_eq_ok.2 ⟨sorts, ordering_rename hsorts, rfl⟩

end EntityStore
