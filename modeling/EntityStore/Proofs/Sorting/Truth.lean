import EntityStore.Proofs.Sorting.Rearrangement
import EntityStore.Sorting.StableSort

/-!
# Answers that are true

What a sort gives is known from the answers that are true of a comparator.  It may only ask about
two of the records that it sorts, or about records that are known to be comparable; so either all
its questions have an answer, or the first that has none is about two of the records on which the
comparator fails.  From then on the sort is denied everything.

    t.Ensures c rs Q → (∃ b, t.run c.answer none = (some b, none) ∧ Q b) ∨
      ∃ failure rest, t.Stuck c failure rest ∧ ∃ a b, [a, b].Subperm rs ∧ c a b = .error failure
                                                                                    (Ensures.run)
    t.Stuck c failure rest → t.run c.answer none = (rest.denied, some failure)        (Stuck.run)
-/

namespace EntityStore

namespace Comparator

/-- The comparator does not fail on the two records. -/
def Comparable (c : Comparator) (a b : Record) : Prop := ∃ o, c a b = .ok o

/-- What the records are known to be like from the answer whether `a` comes before `b`. -/
def Tells (c : Comparator) (a b : Record) : Bool → Prop
  | true => c.Before a b
  | false => c.InOrder b a

/-- The records may be asked about in a sort of `rs`. -/
def Allowed (c : Comparator) (rs : List Record) (a b : Record) : Prop :=
  c.Comparable a b ∨ [a, b].Subperm rs

variable {c : Comparator} {rs xs ys : List Record} {a b : Record}

theorem Comparable.symm (hc : Coherent c) (h : c.Comparable a b) : c.Comparable b a := by
  obtain ⟨o, ho⟩ := h
  exact ⟨o.swap, hc.swap ho⟩

theorem InOrder.comparable (h : c.InOrder a b) : c.Comparable a b := by
  obtain ⟨o, ho, -⟩ := h
  exact ⟨o, ho⟩

theorem Lawful.inOrder_self (hc : c.Lawful) (h : c.Comparable a b) : c.InOrder a a := by
  obtain ⟨o, hab⟩ := h
  exact ⟨.eq, hc.self hab, by decide⟩

theorem allowed_of_append (h : (xs ++ ys).Subperm rs) (ha : a ∈ xs) (hb : b ∈ ys) :
    c.Allowed rs a b := by
  have hpair : [a, b].Sublist (xs ++ ys) :=
    (List.singleton_sublist.2 ha).append (List.singleton_sublist.2 hb)
  exact .inr (hpair.subperm.trans h)

theorem allowed_of_append' (h : (xs ++ ys).Subperm rs) (ha : a ∈ xs) (hb : b ∈ ys) :
    c.Allowed rs b a :=
  allowed_of_append (List.perm_append_comm.subperm.trans h) hb ha

theorem tells_of_eq_ok (hc : Coherent c) {o : Ordering} (h : c a b = .ok o) :
    c.Tells a b (o == .lt) := by
  cases o with
  | lt => exact h
  | eq => exact ⟨.eq, hc.swap h, by decide⟩
  | gt => exact ⟨.lt, hc.swap h, by decide⟩

end Comparator

namespace Asking

variable {β γ : Type} {c : Comparator} {rs : List Record} {P Q : β → Prop}

/-- Whatever is answered that is true of the comparator, the computation asks for what is allowed in
a sort of `rs` and comes to a result of the kind. -/
def Ensures (c : Comparator) (rs : List Record) (Q : β → Prop) : Asking Record β → Prop
  | done b => Q b
  | ask a b next =>
    c.Allowed rs a b ∧ ∀ answer, c.Tells a b answer → (next answer).Ensures c rs Q
  | broken => False

/-! ## Composition -/

theorem Ensures.bind {t : Asking Record β} {f : β → Asking Record γ} {Q : γ → Prop}
    (ht : t.Ensures c rs P) (hf : ∀ b, P b → (f b).Ensures c rs Q) :
    (t >>= f).Ensures c rs Q := by
  induction t with
  | done b => exact hf b ht
  | ask a b next ih =>
    exact ⟨ht.1, fun answer hanswer => ih answer (ht.2 answer hanswer)⟩
  | broken => exact ht

theorem Ensures.mono {t : Asking Record β} (ht : t.Ensures c rs P) (h : ∀ b, P b → Q b) :
    t.Ensures c rs Q := by
  induction t with
  | done b => exact h b ht
  | ask a b next ih =>
    exact ⟨ht.1, fun answer hanswer => ih answer (ht.2 answer hanswer)⟩
  | broken => exact ht

/-- A question and the two ways to go on. -/
theorem Ensures.before {a b : Record} {f : Bool → Asking Record β} (h : c.Allowed rs a b)
    (hyes : c.Before a b → (f true).Ensures c rs Q)
    (hno : c.InOrder b a → (f false).Ensures c rs Q) : (before a b >>= f).Ensures c rs Q := by
  refine ⟨h, fun answer hanswer => ?_⟩
  cases answer with
  | true => exact hyes hanswer
  | false => exact hno hanswer

/-! ## Running -/

/-- The first question that the comparator has no answer to: its failure, and what the computation
goes on with when it is told no. -/
inductive Stuck (c : Comparator) (failure : Failure) (rest : Asking Record β) :
    Asking Record β → Prop
  | here {a b : Record} {next : Bool → Asking Record β} (h : c a b = .error failure)
    (hrest : next false = rest) : Stuck c failure rest (ask a b next)
  | later {a b : Record} {next : Bool → Asking Record β} {o : Ordering} (h : c a b = .ok o)
    (hnext : Stuck c failure rest (next (o == .lt))) : Stuck c failure rest (ask a b next)

theorem run_answer_some (t : Asking Record β) (failure : Failure) :
    t.run c.answer (some failure) = (t.denied, some failure) := by
  induction t with
  | done b => rfl
  | ask a b next ih => exact ih false
  | broken => rfl

theorem Stuck.run {failure : Failure} {rest t : Asking Record β} (h : Stuck c failure rest t) :
    t.run c.answer none = (rest.denied, some failure) := by
  induction h with
  | @here a b next h hrest =>
    rw [Asking.run, Comparator.answer, h, ← hrest]
    exact run_answer_some (next false) failure
  | @later a b next o h _ ih =>
    rw [Asking.run, Comparator.answer, h]
    exact ih

/-- Either all questions are answered, or one fails on two of the records. -/
theorem Ensures.run (hc : Coherent c) {t : Asking Record β} (h : t.Ensures c rs Q) :
    (∃ b, t.run c.answer none = (some b, none) ∧ Q b) ∨
      ∃ failure rest, Stuck c failure rest t ∧
        ∃ a b, [a, b].Subperm rs ∧ c a b = .error failure := by
  induction t with
  | done b => exact .inl ⟨b, rfl, h⟩
  | ask a b next ih =>
    obtain ⟨hallowed, hnext⟩ := h
    cases hab : c a b with
    | error failure =>
      have hpair : [a, b].Subperm rs := by
        refine hallowed.resolve_left ?_
        rintro ⟨o, ho⟩
        rw [hab] at ho
        cases ho
      exact .inr ⟨failure, next false, .here hab rfl, a, b, hpair, hab⟩
    | ok o =>
      have hrun : (ask a b next).run c.answer none = (next (o == .lt)).run c.answer none := by
        rw [Asking.run, Comparator.answer, hab]
      rcases ih _ (hnext _ (Comparator.tells_of_eq_ok hc hab)) with ⟨r, hr, hQ⟩ | hfails
      · exact .inl ⟨r, hrun.trans hr, hQ⟩
      · obtain ⟨failure, rest, hstuck, hpair⟩ := hfails
        exact .inr ⟨failure, rest, .later hab hstuck, hpair⟩
  | broken => exact h.elim

/-! ## Panics -/

/-- The computation does not panic, whatever it is answered. -/
def Steady {α : Type} : Asking α β → Prop
  | done _ => True
  | ask _ _ next => ∀ answer, (next answer).Steady
  | broken => False

theorem Steady.bind {α : Type} {t : Asking α β} {f : β → Asking α γ} (ht : t.Steady)
    (hf : ∀ b, (f b).Steady) : (t >>= f).Steady := by
  induction t with
  | done b => exact hf b
  | ask a b next ih => exact fun answer => ih answer (ht answer)
  | broken => exact ht

theorem Steady.exists_denied {α : Type} {t : Asking α β} (h : t.Steady) :
    ∃ b, t.denied = some b := by
  induction t with
  | done b => exact ⟨b, rfl⟩
  | ask a b next ih => exact ih false (h false)
  | broken => exact h.elim

theorem Stuck.steady {failure : Failure} {rest t : Asking Record β} (h : Stuck c failure rest t)
    (ht : t.Steady) : rest.Steady := by
  induction h with
  | here _ hrest => exact hrest ▸ ht false
  | later _ _ ih => exact ih (ht _)

end Asking

end EntityStore
