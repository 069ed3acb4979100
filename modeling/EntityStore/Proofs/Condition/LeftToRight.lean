import EntityStore.Condition.Binding
import Mathlib.Logic.Basic

/-!
# Conditions are read from left to right

`combine` extends the junction at the root or wraps it, and either way what it builds means the
same: first all there was, then the new part, and the new part only where the rest leaves the
outcome open.  So a row of parts is read as `((l₁ k₂ l₂) k₃ l₃) …`, and neither `AND` nor `OR`
binds tighter.

    (c.combine k n).bind schema args = do
      let (f, args) ← c.bind schema args
      let (g, args) ← n.bind schema args
      pure (Filter.join k f g, args)                                            (bind_combine)
    Filter.join k f g r = k.outcome (f r) (g r)                                (join_apply)
-/

namespace EntityStore

/-- The outcome of two tests that are joined.  The second counts only where the first neither fails
nor decides: a test that fails decides an `AND`, one that holds decides an `OR`. -/
def Conjunction.outcome : Conjunction → Except Failure Bool → Except Failure Bool →
    Except Failure Bool
  | .and, .ok true, second => second
  | .or, .ok false, second => second
  | _, first, _ => first

namespace Filter

theorem join_apply (k : Conjunction) (f g : Filter) (r : Record) :
    join k f g r = k.outcome (f r) (g r) := by
  cases k with
  | and =>
    show Filter.and f g r = _
    unfold Filter.and
    cases f r with
    | error failure => rfl
    | ok b => cases b <;> rfl
  | or =>
    show Filter.or f g r = _
    unfold Filter.or
    cases f r with
    | error failure => rfl
    | ok b => cases b <;> rfl

/-- Joins further filters to the first, one after the other. -/
def joinAll (f : Filter) (rest : List (Conjunction × Filter)) : Filter :=
  rest.foldl (fun f next => join next.1 f next.2) f

theorem joinAll_apply (f : Filter) (rest : List (Conjunction × Filter)) (r : Record) :
    joinAll f rest r = rest.foldl (fun x next => next.1.outcome x (next.2 r)) (f r) := by
  induction rest generalizing f with
  | nil => rfl
  | cons next rest ih =>
    rw [List.foldl_cons, ← join_apply, ← ih]
    rfl

end Filter

namespace Condition

/-- The condition is no junction of nothing, which could not be bound. -/
def HasParts : Condition → Prop
  | conj parts => parts ≠ []
  | disj parts => parts ≠ []
  | _ => True

/-- Combines further conditions with the first, one after the other. -/
def combineAll (c : Condition) (rest : List (Conjunction × Condition)) : Condition :=
  rest.foldl (fun c next => c.combine next.1 next.2) c

/-- Binds conditions one after the other, each to the values that those before it left. -/
def bindInTurn (schema : Schema) :
    List (Conjunction × Condition) → List Value →
      Except Failure (List (Conjunction × Filter) × List Value)
  | [], args => .ok ([], args)
  | (k, c) :: rest, args => do
    let (f, args) ← c.bind schema args
    let (fs, args) ← bindInTurn schema rest args
    pure ((k, f) :: fs, args)

section
variable {schema : Schema} {k : Conjunction}

theorem hasParts_combine (c next : Condition) (k : Conjunction) : (c.combine k next).HasParts := by
  cases c <;> cases k <;> simp [combine, HasParts]

theorem bindRest_append (f : Filter) (parts : List Condition) (next : Condition)
    (args : List Value) :
    bindRest schema k f (parts ++ [next]) args = (do
      let (f, args) ← bindRest schema k f parts args
      let (g, args) ← next.bind schema args
      pure (Filter.join k f g, args)) := by
  induction parts generalizing f args with
  | nil => rfl
  | cons c parts ih =>
    simp only [List.cons_append, bindRest, bind_assoc]
    congr 1
    funext ⟨g, args⟩
    exact ih _ _

/-- A new part of a junction is bound after all others. -/
theorem bindParts_append {parts : List Condition} (h : parts ≠ []) (next : Condition)
    (args : List Value) :
    bindParts schema k (parts ++ [next]) args = (do
      let (f, args) ← bindParts schema k parts args
      let (g, args) ← next.bind schema args
      pure (Filter.join k f g, args)) := by
  cases parts with
  | nil => exact absurd rfl h
  | cons c parts =>
    simp only [List.cons_append, bindParts, bind_assoc]
    congr 1
    funext ⟨f, args⟩
    exact bindRest_append _ _ _ _

theorem bindParts_pair (c next : Condition) (args : List Value) :
    bindParts schema k [c, next] args = (do
      let (f, args) ← c.bind schema args
      let (g, args) ← next.bind schema args
      pure (Filter.join k f g, args)) := rfl

/-- Extending a junction and wrapping it come to the same. -/
theorem bind_combine {c : Condition} (h : c.HasParts) (k : Conjunction) (next : Condition)
    (args : List Value) :
    (c.combine k next).bind schema args = (do
      let (f, args) ← c.bind schema args
      let (g, args) ← next.bind schema args
      pure (Filter.join k f g, args)) := by
  cases c with
  | comparison field operator operand =>
    cases k with
    | and => exact bindParts_pair _ _ _
    | or => exact bindParts_pair _ _ _
  | conj parts =>
    cases k with
    | and => exact bindParts_append h _ _
    | or => exact bindParts_pair _ _ _
  | disj parts =>
    cases k with
    | and => exact bindParts_pair _ _ _
    | or => exact bindParts_append h _ _
  | neg inner =>
    cases k with
    | and => exact bindParts_pair _ _ _
    | or => exact bindParts_pair _ _ _

theorem bind_combineAll {c : Condition} (h : c.HasParts) (rest : List (Conjunction × Condition))
    (args : List Value) :
    (c.combineAll rest).bind schema args = (do
      let (f, args) ← c.bind schema args
      let (fs, args) ← bindInTurn schema rest args
      pure (f.joinAll fs, args)) := by
  induction rest generalizing c with
  | nil => exact (bind_pure _).symm
  | cons next rest ih =>
    rw [combineAll, List.foldl_cons, ← combineAll, ih (hasParts_combine _ _ _), bind_combine h]
    simp only [bindInTurn, bind_assoc, pure_bind]
    rfl

end

/-- **Combining is strictly from left to right.**  A combined condition binds as its two sides do
one after the other, and its outcome on a record is that of the first side, then of the second where
the first leaves it open.  A row of parts is read part by part, whatever joins them. -/
theorem combine_reads_left_to_right (schema : Schema) (c : Condition) (h : c.HasParts) :
    (∀ k next args, (c.combine k next).bind schema args = (do
      let (f, args) ← c.bind schema args
      let (g, args) ← next.bind schema args
      pure (fun r => k.outcome (f r) (g r), args))) ∧
    ∀ rest args, (c.combineAll rest).bind schema args = (do
      let (f, args) ← c.bind schema args
      let (fs, args) ← bindInTurn schema rest args
      pure (fun r => fs.foldl (fun x next => next.1.outcome x (next.2 r)) (f r), args)) := by
  constructor
  · intro k next args
    rw [bind_combine h]
    simp only [← Filter.join_apply]
  · intro rest args
    rw [bind_combineAll h]
    simp only [← Filter.joinAll_apply]

/-- The condition `edition = 1 OR edition = 2 AND edition = 3` on a book of the first edition, which
it would accept if `AND` bound tighter. -/
theorem combine_reads_left_to_right_mixed :
    let edition : Accessor := ⟨"edition", "Book", "Book", fun r => .integer (.ofNat r.id)⟩
    let schema : Schema := ⟨"Book", "Book", edition, []⟩
    let isEdition (n : Nat) : Condition :=
      .comparison "edition" .eq (.literal (.integer (.ofNat n)))
    (isEdition 1).HasParts ∧
      ((isEdition 1).combineAll [(.or, isEdition 2), (.and, isEdition 3)]).bind schema [] >>=
        (fun bound => bound.1 ⟨1, "Book"⟩) = .ok false := by
  intro edition schema isEdition
  have h : (isEdition 1).HasParts := trivial
  refine ⟨h, ?_⟩
  rw [(combine_reads_left_to_right schema _ h).2]
  rfl

end Condition

end EntityStore
