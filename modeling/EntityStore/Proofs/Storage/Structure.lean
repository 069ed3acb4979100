import EntityStore.Proofs.Storage.History

/-!
# Commits of the whole container

Whatever is committed otherwise, the last container that a store committed has all that the store
has, so no operation changes what a key is bound to without committing a container.

    along a history  (lastContainer initial s.commits).get? k = s.contents.get? k
                                                                    (lastContainer_eq_contents)
-/

namespace EntityStore

/-- What the last commit of a whole container carried, or `initial` where there was none. -/
def lastContainer (initial : Container) (commits : List Commit) : Container :=
  commits.foldl (fun last commit =>
    match commit with
    | .container contents => contents
    | _ => last) initial

theorem lastContainer_append (initial : Container) (xs ys : List Commit) :
    lastContainer initial (xs ++ ys) = lastContainer (lastContainer initial xs) ys := by
  simp [lastContainer]

/-- Commits of records and batches leave the last container what it is. -/
theorem lastContainer_of_none {initial : Container} {commits : List Commit}
    (h : ∀ commit ∈ commits, commit.isContainer = false) :
    lastContainer initial commits = initial := by
  induction commits with
  | nil => rfl
  | cons commit rest ih =>
    rw [List.forall_mem_cons] at h
    cases commit with
    | container contents => cases h.1
    | record k r => exact ih h.2
    | batch entries => exact ih h.2

namespace Store

/-- From `s` to `t` commits were only added, and `t` has what the last container among them carried,
or what `s` has where none is among them. -/
def Follows (s t : Store) : Prop :=
  ∃ added, t.commits = s.commits ++ added ∧ lastContainer s.contents added = t.contents

namespace Follows

theorem refl (s : Store) : Follows s s := ⟨[], by simp, rfl⟩

theorem trans {s t u : Store} (hst : Follows s t) (htu : Follows t u) : Follows s u := by
  obtain ⟨xs, hxs, hlast⟩ := hst
  obtain ⟨ys, hys, hlast'⟩ := htu
  refine ⟨xs ++ ys, by rw [hys, hxs, List.append_assoc], ?_⟩
  rw [lastContainer_append, hlast, hlast']

theorem replaceContents (s : Store) (contents : Container) :
    Follows s (s.replaceContents contents) :=
  ⟨[.container contents], rfl, rfl⟩

theorem root (s : Store) : Follows s (s.commit [.container s.contents]) :=
  replaceContents s s.contents

theorem single {s t : Store} (h : Write.Single s t) : Follows s t := by
  cases h with
  | unchanged => exact refl s
  | replaced contents => exact replaceContents s contents
  | inPlace k r _ => exact ⟨[.record k r], rfl, rfl⟩

/-- A batch commits the container unless all its entries are in place. -/
theorem putAll (batch : List (Value × Record)) (s : Store) :
    Follows s (Store.putAll batch s).2 := by
  unfold Store.putAll
  split
  · exact refl s
  · refine ⟨_, rfl, ?_⟩
    show lastContainer s.contents (batchCommits _ _ _ _) = s.contents.insertAll batch
    rw [batchCommits, lastContainer_append]
    have hrecords (base : Container) :
        lastContainer base (if s.isRefined && !(splitBatch s.contents batch).2.isEmpty then
          [.batch (splitBatch s.contents batch).2] else []) = base := by
      split <;> rfl
    rw [hrecords]
    split
    · rfl
    · next hnone =>
      simp only [Bool.or_eq_true, not_or, Bool.not_eq_true] at hnone
      exact (insertAll_of_inPlace hnone.1).symm

theorem write (s : Store) (w : Write) : Follows s (w.after s) := by
  rcases w.after_cases s with ⟨_, hsingle⟩ | hbatch
  · exact single hsingle
  · rw [hbatch]
    exact putAll w.offered s

theorem writes (s : Store) (ws : List Write) : Follows s (Write.afterAll s ws) := by
  induction ws generalizing s with
  | nil => exact refl s
  | cons w ws ih => exact (write s w).trans (ih (w.after s))

theorem action (s : Store) (a : Action) : Follows s (a.after s) := by
  cases a with
  | write w => exact write s w
  | transaction work outcome =>
    rcases History.transaction_after work outcome s with hend | hend
    · rw [hend]; exact writes s work
    · rw [hend]; exact (writes s work).trans (root _)

theorem trail (s : Store) (actions : List Action) : ∀ t ∈ History.trail s actions, Follows s t := by
  have hwrite : ∀ t (w : Write), Follows s t → (Follows s (w.after t) ↔ True) :=
    fun t w h => iff_of_true (h.trans (write t w)) trivial
  have hroot : ∀ t, Follows s t → Follows s (t.commit [.container t.contents]) :=
    fun t h => h.trans (root t)
  exact (@History.trail_iff _ (fun _ _ => True) hwrite hroot actions s (refl s)).2
    fun _ _ => trivial

/-- Whatever leads from one store to the other adds a commit of a container or binds every key as
before. -/
theorem container_or_same {s t : Store} (h : Follows s t) :
    ∃ added, t.commits = s.commits ++ added ∧
      ((∃ commit ∈ added, commit.isContainer = true) ∨
        ∀ k, t.contents.get? k = s.contents.get? k) := by
  obtain ⟨added, hadded, hlast⟩ := h
  refine ⟨added, hadded, ?_⟩
  by_cases hcontainer : ∃ commit ∈ added, commit.isContainer = true
  · exact .inl hcontainer
  · refine .inr fun k => ?_
    have hnone : ∀ commit ∈ added, commit.isContainer = false := by
      intro commit hmem
      rw [← Bool.not_eq_true]
      exact fun h => hcontainer ⟨commit, hmem, h⟩
    rw [← hlast, lastContainer_of_none hnone]

end Follows

end Store

/-- **No structural change escapes a container commit.**  Along a history the last container that
was committed agrees with the store on every key; so each action adds a commit of a container or
leaves every key bound to the instance that it was bound to. -/
theorem lastContainer_eq_contents (initial : Container) (settings : Settings)
    (actions : List Action) :
    let start := Store.hydrate initial settings
    ∀ s ∈ start :: History.trail start actions,
      (∀ k, (lastContainer initial s.commits).get? k = s.contents.get? k) ∧
      ∀ a : Action, ∃ added, (a.after s).commits = s.commits ++ added ∧
        ((∃ commit ∈ added, commit.isContainer = true) ∨
          ∀ k, (a.after s).contents.get? k = s.contents.get? k) := by
  intro start s hs
  have hfollows : Store.Follows start s := by
    rcases List.mem_cons.1 hs with rfl | hmem
    · exact .refl _
    · exact .trail start actions s hmem
  refine ⟨fun k => ?_, fun a => (Store.Follows.action s a).container_or_same⟩
  obtain ⟨added, hadded, hlast⟩ := hfollows
  rw [hadded, ← hlast]
  rfl

/-- In a batch that gives one key two records the first of them is committed last. -/
theorem lastContainer_repeated_key :
    let a : Record := ⟨0, "i64"⟩
    let b : Record := ⟨1, "i64"⟩
    let start := Store.hydrate (Container.empty.insert (.integer 7) a) {}
    let batch := Write.putAll [(.integer 7, a), (.integer 7, b)]
    batch.after start ∈ start :: History.trail start [.write batch] ∧
      (lastContainer start.contents (batch.after start).commits).get? (.integer 7)
        = (batch.after start).contents.get? (.integer 7) := by
  intro a b start batch
  have hmem : batch.after start ∈ start :: History.trail start [.write batch] :=
    List.mem_cons_of_mem _ List.mem_cons_self
  exact ⟨hmem, (lastContainer_eq_contents _ {} [.write batch] _ hmem).1 (.integer 7)⟩

end EntityStore
